import TensorDE.Lib.Effect
import TensorDE.Lib.Codec

namespace TensorDE

/-- A reader in the middle of a byte string; its errors speak of `context`. -/
structure Cursor (κ : Type) where
  context : κ
  data : Bytes
  offset : Nat

namespace Cursor

variable {κ ε α β : Type}

abbrev Decode (κ ε α : Type) := EStateM ε (Cursor κ) α

def items (m : Decode κ ε α) : Nat → Decode κ ε (List α)
  | 0 => pure []
  | count + 1 => do
    let item ← m
    let rest ← items m count
    return item :: rest

def array (m : Decode κ ε α) : (n : Nat) → Decode κ ε (Vector α n)
  | 0 => pure #v[]
  | n + 1 => do
    let init ← array m n
    let last ← m
    return init.push last

def putArray {n : Nat} (put : α → Bytes) (values : Vector α n) : Bytes := values.toList.flatMap put

/-- Wherever the bytes stand, the decoder takes exactly them and gives the value. -/
def Reads (m : Decode κ ε α) (bytes : Bytes) (a : α) : Prop :=
  ∀ context pre post, (pre ++ bytes ++ post).length < 2 ^ 64 →
    m ⟨context, pre ++ bytes ++ post, pre.length⟩ =
      .ok a ⟨context, pre ++ bytes ++ post, pre.length + bytes.length⟩

variable {m : Decode κ ε α} {f : α → Decode κ ε β} {a : α}

theorem bind_ok {s t : Cursor κ} (h : m s = .ok a t) : (m >>= f) s = f a t := by
  change EStateM.bind m f s = _
  unfold EStateM.bind
  rw [h]

theorem Reads.pure (a : α) : Reads (pure a : Decode κ ε α) [] a := by
  intro context pre post _
  simp [Pure.pure, EStateM.pure]

variable {b : β}

theorem Reads.bind {bytes bytes' : Bytes}
    (h : Reads m bytes a) (h' : Reads (f a) bytes' b) : Reads (m >>= f) (bytes ++ bytes') b := by
  intro context pre post hsize
  have happ : pre ++ (bytes ++ bytes') ++ post = pre ++ bytes ++ (bytes' ++ post) := by simp
  have happ' : pre ++ bytes ++ bytes' ++ post = pre ++ bytes ++ (bytes' ++ post) := by simp
  have h1 := h context pre (bytes' ++ post) (by rwa [← happ])
  have h2 := h' context (pre ++ bytes) post (by rwa [happ', ← happ])
  grind [bind_ok]

theorem Reads.bind_pure {bytes : Bytes} (h : Reads m bytes a) (g : α → β) :
    Reads (m >>= fun x => Pure.pure (g x)) bytes (g a) := by
  rw [← List.append_nil bytes]
  exact h.bind (Reads.pure (g a))

/-- The decoder undoes the encoder on every value. -/
class Decodes (m : Decode κ ε α) (put : α → Bytes) : Prop where
  reads : ∀ a, Reads m (put a) a

/-- The computation gives the value and reads nothing. -/
class Yields (m : Decode κ ε α) (a : outParam α) : Prop where
  run : ∀ s, m s = .ok a s

/-- A decoder that reads its parts one after another. -/
inductive Fields : Decode κ ε β → List Bytes → β → Prop where
  | done (b : β) : Fields (pure b) [] b
  | step {α : Type} {m : Decode κ ε α} {f : α → Decode κ ε β} {put : α → Bytes} {a : α} {parts : List Bytes} {b : β}
      [Decodes m put] : Fields (f a) parts b → Fields (m >>= f) (put a :: parts) b
  | check {α : Type} {m : Decode κ ε α} {f : α → Decode κ ε β} {a : α} {parts : List Bytes} {b : β}
      [Yields m a] : Fields (f a) parts b → Fields (m >>= f) parts b
  | part {α : Type} {m : Decode κ ε α} {f : α → Decode κ ε β} {a : α} {bytes : Bytes} {parts : List Bytes} {b : β} :
      Reads m bytes a → Fields (f a) parts b → Fields (m >>= f) (bytes :: parts) b

theorem Yields.reads [h : Yields m a] : Reads m [] a := by
  intro context pre post _
  simpa using h.run _

theorem Fields.reads {m : Decode κ ε β} {parts : List Bytes} (h : Fields m parts b) : Reads m parts.flatten b := by
  induction h with
  | done b => exact Reads.pure b
  | step _ ih => exact (Decodes.reads _).bind ih
  | check _ ih => exact Yields.reads.bind ih
  | part h _ ih => exact h.bind ih

theorem reads_items {put : α → Bytes} {values : List α}
    (h : ∀ a ∈ values, Reads m (put a) a) : Reads (items m values.length) (values.flatMap put) values := by
  induction values with
  | nil => exact Reads.pure []
  | cons a values ih =>
    have hrest := ih fun b hb => h b (by simp [hb])
    exact (h a (by simp)).bind (hrest.bind_pure (a :: ·))

instance {m : Decode κ ε α} {put : α → Bytes} [Decodes m put] (n : Nat) :
    Decodes (array m n) (putArray put) where
  reads values := by
    induction n with
    | zero =>
      obtain rfl : values = #v[] := by simp
      exact Reads.pure #v[]
    | succ n ih =>
      obtain ⟨init, last, rfl⟩ : ∃ (init : Vector α n) (last : α), values = init.push last := Vector.exists_push
      have happ : putArray put (init.push last) = putArray put init ++ put last := by
        simp [putArray, Vector.toList_push]
      have hlast : Reads m (put last) last := Decodes.reads last
      rw [happ]
      exact (ih init).bind (hlast.bind_pure init.push)

end Cursor

end TensorDE
