import Mathlib.Tactic

/-! Runs of literals and copies of what was written before them, as the LZ77 family of formats has them. -/

namespace TensorDE.Lz77

open List

variable {α : Type}

/-- Put `count` more values at the end, each the one that stands `offset` places before it. The copy may reach into
what it writes itself. -/
def copyBack (offset : Nat) : Nat → List α → List α
  | 0, out => out
  | count + 1, out => copyBack offset count (out ++ out[out.length - offset]?.toList)

structure Match where
  offset : Nat
  length : Nat
deriving DecidableEq

structure Sequence (α : Type) where
  literals : List α
  copy : Option Match
deriving DecidableEq

namespace Sequence

def expand (out : List α) (sequence : Sequence α) : List α :=
  match sequence.copy with
  | none => out ++ sequence.literals
  | some found => copyBack found.offset found.length (out ++ sequence.literals)

/-- The copy starts in what has been written. -/
def Within (out : List α) (sequence : Sequence α) : Prop :=
  ∀ found, sequence.copy = some found → 0 < found.offset ∧ found.offset ≤ (out ++ sequence.literals).length

end Sequence

def expand : List α → List (Sequence α) → List α
  | out, [] => out
  | out, sequence :: rest => expand (sequence.expand out) rest

def Within : List α → List (Sequence α) → Prop
  | _, [] => True
  | out, sequence :: rest => sequence.Within out ∧ Within (sequence.expand out) rest

@[simp] theorem copyBack_zero (offset : Nat) (out : List α) : copyBack offset 0 out = out := rfl

variable {offset : Nat} {out : List α} (count : Nat)

theorem copyBack_succ {value : α} (h : out[out.length - offset]? = some value) :
    copyBack offset (count + 1) out = copyBack offset count (out ++ [value]) := by
  rw [copyBack, h]
  rfl

theorem exists_source (hpos : 0 < offset) (hoffset : offset ≤ out.length) :
    ∃ value, out[out.length - offset]? = some value :=
  ⟨_, getElem?_eq_getElem (by omega)⟩

theorem length_copyBack (hpos : 0 < offset) (hoffset : offset ≤ out.length) :
    (copyBack offset count out).length = out.length + count := by
  induction count generalizing out with
  | zero => rfl
  | succ count ih => grind [copyBack]

theorem length_le_sequence {sequence : Sequence α} (h : sequence.Within out) :
    out.length ≤ (sequence.expand out).length := by
  grind [Sequence.expand, length_copyBack, Sequence.Within]

theorem length_le_expand {sequences : List (Sequence α)} (h : Within out sequences) :
    out.length ≤ (expand out sequences).length := by
  induction sequences generalizing out with
  | nil => exact le_refl _
  | cons sequence rest ih => exact (length_le_sequence h.1).trans (ih h.2)

end TensorDE.Lz77
