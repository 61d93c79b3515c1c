import TensorDE.Lib.Lz77
import TensorDE.Wallpaper.Tex

set_option linter.dupNamespace false

namespace TensorDE.Wallpaper

open Effect Codec List

namespace Lz4Block

/-- A call that reads the payload from the offset it is given and moves the offset on. -/
abbrev Reading (α : Type) := Op Nat TexParseError α

variable (payload : Bytes)

def extendedRound (length : Nat) : Reading (Round Nat Nat) := do
  let offset ← get
  let extra ← okOr payload[offset]? (.lz4 "truncated extended length")
  set (offset + 1)
  let length ← okOr (checkedAdd length extra.toNat) .offsetOverflow
  pure (if extra ≠ 255 then .done length else .again length)

def extendedLength (base : Nat) : Reading Nat :=
  if base ≠ 15 then pure base else loop (extendedRound payload) (payload.length + 1) base

def readLiterals (token : UInt8) : Reading Bytes := do
  let literalLen ← extendedLength payload (token.toNat >>> 4)
  let offset ← get
  let literalEnd ← okOr (checkedAdd offset literalLen) .offsetOverflow
  let literals ← okOr (Tex.getRange payload offset literalEnd) (.lz4 "truncated literal run")
  set literalEnd
  pure literals

def readMatchOffset (written : Nat) : Reading Nat := do
  let offset ← get
  let matchBytes ← okOr (Tex.getRange payload offset (min (offset + 2) (2 ^ 64 - 1))) (.lz4 "truncated match offset")
  let matchOffset := ofLe matchBytes
  set (offset + 2)
  if matchOffset = 0 ∨ written < matchOffset then
    fail (.lz4 s!"invalid match offset {matchOffset} at output byte {written}")
  else
    pure matchOffset

def copyMatch (decodedSize matchOffset : Nat) : Nat → Bytes → Reading Bytes
  | 0, output => pure output
  | count + 1, output => do
    let source ← subUsize output.length matchOffset
    let byte ← expect output[source]?
    if decodedSize < (output ++ [byte]).length then
      fail (.lz4 s!"decoded more than declared {decodedSize} bytes")
    else
      copyMatch decodedSize matchOffset count (output ++ [byte])

def decodeRound (decodedSize : Nat) (output : Bytes) : Reading (Round Bytes Bytes) := do
  let offset ← get
  if offset < payload.length then
    let token ← expect payload[offset]?
    set (offset + 1)
    let literals ← readLiterals payload token
    let offset ← get
    if offset = payload.length then
      pure (.done (output ++ literals))
    else
      let matchOffset ← readMatchOffset payload (output ++ literals).length
      let extended ← extendedLength payload (token.toNat &&& 0x0f)
      let matchLen ← addUsize extended 4
      let output ← copyMatch decodedSize matchOffset matchLen (output ++ literals)
      pure (.again output)
  else
    pure (.done output)

/-- `Vec::with_capacity`: no allocation is larger than `isize::MAX` bytes. -/
def withCapacity (size : Nat) : Reading Bytes := if size < 2 ^ 63 then pure [] else throw .panic

def decode (decodedSize : Nat) : Reading Bytes := do
  let output ← withCapacity decodedSize
  let output ← loop (decodeRound payload decodedSize) (payload.length + 1) output
  if output.length ≠ decodedSize then
    fail (.lz4 s!"decoded {output.length} bytes, expected {decodedSize}")
  else
    pure output

def decodeLz4Block (decodedSize : Nat) : Except (Fault TexParseError) Bytes :=
  match decode payload decodedSize 0 with
  | .ok output _ => .ok output
  | .error fault _ => .error fault

/-- Bytes after a full nibble: each adds to the length and the first below 255 ends it. -/
inductive Extends : Bytes → Nat → Prop where
  | last {byte : UInt8} (h : byte ≠ 255) : Extends [byte] byte.toNat
  | more {bytes : Bytes} {length : Nat} (h : Extends bytes length) : Extends (255 :: bytes) (255 + length)

inductive SpellsLength (nibble : Nat) : Bytes → Nat → Prop where
  | short (h : nibble ≠ 15) : SpellsLength nibble [] nibble
  | extended {bytes : Bytes} {length : Nat} (h : nibble = 15) (hext : Extends bytes length) :
      SpellsLength nibble bytes (15 + length)

inductive Spells : List (Lz77.Sequence UInt8) → Bytes → Prop where
  | nil : Spells [] []
  | last {token : UInt8} {extra literals : Bytes} (hlen : SpellsLength (token.toNat >>> 4) extra literals.length) :
      Spells [⟨literals, none⟩] (token :: (extra ++ literals))
  | copy {token : UInt8} {extra literals offset extra' tail : Bytes} {length : Nat} {rest : List (Lz77.Sequence UInt8)}
      (hlen : SpellsLength (token.toNat >>> 4) extra literals.length) (hoffset : offset.length = 2)
      (hmatch : SpellsLength (token.toNat &&& 0x0f) extra' length) (hrest : Spells rest tail) :
      Spells (⟨literals, some ⟨ofLe offset, length + 4⟩⟩ :: rest)
        (token :: (extra ++ (literals ++ (offset ++ (extra' ++ tail)))))

variable {bytes : Bytes}

theorem Extends.le {length : Nat} (h : Extends bytes length) : length ≤ 255 * bytes.length := by
  induction h with
  | @last byte _ =>
    have hbyte := byte.toNat_lt
    rw [length_singleton]
    omega
  | more _ ih =>
    rw [length_cons]
    omega

theorem SpellsLength.le {nibble length : Nat} (hnibble : nibble ≤ 15) (h : SpellsLength nibble bytes length) :
    length ≤ 15 + 255 * bytes.length := by
  cases h with
  | short _ => omega
  | extended _ hext =>
    have hle := hext.le
    omega

section Payload

variable {payload : Bytes} {offset : Nat}

variable {bytes : Bytes}

theorem drop_of_read (h : bytes <+: payload.drop offset) :
    payload.drop offset = bytes ++ payload.drop (offset + bytes.length) := by
  obtain ⟨post, hpost⟩ := h
  rw [← drop_drop, ← hpost, drop_left]

theorem length_of_read (hoffset : offset ≤ payload.length) (h : bytes <+: payload.drop offset) :
    offset + bytes.length ≤ payload.length := by
  grind

variable {byte : UInt8}

theorem drop_of_getElem? (h : payload[offset]? = some byte) :
    payload.drop offset = byte :: payload.drop (offset + 1) := by
  grind [drop_eq_getElem_cons]

theorem getElem?_of_drop {rest : Bytes} (h : payload.drop offset = byte :: rest) :
    payload[offset]? = some byte ∧ payload.drop (offset + 1) = rest := by
  constructor
  · have hhead : (payload.drop offset)[0]? = payload[offset + 0]? := getElem?_drop
    rw [h] at hhead
    exact hhead.symm
  · rw [← drop_drop, h]
    rfl

theorem extendedRound_exact {length : Nat} (hfits : length + 255 < 2 ^ 64) :
    Exact (fun round t => ∃ extra, payload[offset]? = some extra ∧ t = offset + 1 ∧
        round = if extra ≠ 255 then .done (length + extra.toNat) else .again (length + extra.toNat))
      (extendedRound payload length offset) := by
  have hextra : Exact (fun extra t => payload[offset]? = some extra ∧ t = offset)
      ((okOr payload[offset]? (.lz4 "truncated extended length") : Reading UInt8) offset) := Exact.okOr _ _ _
  refine Exact.step (get_run offset) ((hextra.bind (T := fun extra _ round t => t = offset + 1 ∧
    round = if extra ≠ 255 then .done (length + extra.toNat) else .again (length + extra.toNat)) ?_).congr ?_)
  · rintro extra t ⟨_, rfl⟩
    have hlt := extra.toNat_lt
    have hadd : checkedAdd length extra.toNat = some (length + extra.toNat) := if_pos (by omega)
    refine Exact.step (set_run _ _) ?_
    rw [hadd]
    exact (Exact.pure _ _).congr fun _ _ => and_comm
  grind

def Spelled (payload : Bytes) (offset : Nat) (spells : Bytes → Nat → Prop) (length t : Nat) : Prop :=
  ∃ bytes, spells bytes length ∧ bytes <+: payload.drop offset ∧ t = offset + bytes.length

theorem extendedLoop_exact {length rounds : Nat} (hoffset : offset ≤ payload.length)
    (hfits : length + 255 * (payload.length + 1 - offset) < 2 ^ 64) (hrounds : payload.length - offset < rounds) :
    Exact (Spelled payload offset fun bytes n => ∃ extra, Extends bytes extra ∧ n = length + extra)
      (loop (extendedRound payload) rounds length offset) := by
  refine Exact.loop (P := fun length offset => offset ≤ payload.length ∧
      length + 255 * (payload.length + 1 - offset) < 2 ^ 64)
    (T := fun length offset => Spelled payload offset fun bytes n => ∃ extra, Extends bytes extra ∧ n = length + extra)
    (fun _ offset => payload.length - offset)
    (fun length offset h => extendedRound_exact (by omega)) ?_ ?_ ⟨hoffset, hfits⟩ hrounds
  · rintro length offset ⟨hoffset, hfits⟩ length' t ⟨extra, hextra, rfl, hround⟩
    grind [extra.toNat_lt]
  · rintro length offset ⟨hoffset, hfits⟩ n t
    constructor
    · rintro ⟨bytes, ⟨extra, hextends, rfl⟩, hread, rfl⟩
      have hdrop := drop_of_read hread
      cases hextends with
      | @last byte hbyte => grind [getElem?_of_drop]
      | @more bytes extra hextends =>
        obtain ⟨hget, hrest⟩ := getElem?_of_drop hdrop
        refine .inr ⟨length + 255, offset + 1, ⟨255, hget, rfl, rfl⟩, bytes, ⟨extra, hextends, by omega⟩, ?_, ?_⟩
        · rw [hrest]
          exact prefix_append _ _
        · rw [length_cons]
          omega
    · rintro (⟨extra, hget, rfl, hround⟩ | ⟨length', t', ⟨extra, hget, rfl, hround⟩, bytes, ⟨more, hextends, rfl⟩, hread, rfl⟩)
      · split at hround
        · rename_i hbyte
          injection hround with hn
          refine ⟨[extra], ⟨extra.toNat, .last hbyte, hn⟩, ?_, rfl⟩
          rw [drop_of_getElem? hget]
          exact ⟨_, rfl⟩
        · cases hround
      · split at hround
        · cases hround
        · rename_i hbyte
          injection hround with hlength
          obtain rfl := not_not.mp hbyte
          have hbyte : (255 : UInt8).toNat = 255 := rfl
          refine ⟨255 :: bytes, ⟨255 + more, .more hextends, by omega⟩, ?_, ?_⟩
          · rw [drop_of_getElem? hget]
            exact cons_prefix_cons.mpr ⟨rfl, hread⟩
          · rw [length_cons]
            omega

section

variable (hoffset : offset ≤ payload.length)
include hoffset

theorem extendedLength_exact {base : Nat} (hsize : payload.length ≤ 2 ^ 56) :
    Exact (Spelled payload offset (SpellsLength base)) (extendedLength payload base offset) := by
  rw [extendedLength]
  by_cases hbase : base ≠ 15
  · rw [if_pos hbase]
    refine (Exact.pure base offset).congr fun n t => ?_
    constructor
    · rintro ⟨rfl, rfl⟩
      exact ⟨[], .short hbase, nil_prefix, rfl⟩
    · rintro ⟨bytes, hspells, -, rfl⟩
      grind +splitImp +splitIndPred
  · obtain rfl := not_not.mp hbase
    refine (extendedLoop_exact hoffset (by omega) (by omega)).congr fun n t => ?_
    constructor
    · rintro ⟨bytes, ⟨extra, hextends, rfl⟩, hread, rfl⟩
      exact ⟨bytes, .extended rfl hextends, hread, rfl⟩
    · rintro ⟨bytes, hspells, hread, rfl⟩
      cases hspells with
      | short hshort => exact (hshort rfl).elim
      | extended _ hextends => exact ⟨bytes, ⟨_, hextends, rfl⟩, hread, rfl⟩

theorem readLiterals_exact {token : UInt8} (hsize : payload.length ≤ 2 ^ 56) :
    Exact (fun literals t => ∃ extra, SpellsLength (token.toNat >>> 4) extra literals.length ∧
        extra ++ literals <+: payload.drop offset ∧ t = offset + (extra ++ literals).length)
      (readLiterals payload token offset) := by
  have hlength : Exact (Spelled payload offset (SpellsLength (token.toNat >>> 4)))
      (extendedLength payload (token.toNat >>> 4) offset) := extendedLength_exact hoffset hsize
  refine (hlength.bind (T := fun length t literals u => literals.length = length ∧ literals <+: payload.drop t ∧
    u = t + literals.length) ?_).congr ?_
  · rintro length t ⟨extra, hspells, hread, rfl⟩
    refine Exact.step (get_run _) ?_
    have hend : Exact (fun e u => checkedAdd (offset + extra.length) length = some e ∧ u = offset + extra.length)
        ((okOr (checkedAdd (offset + extra.length) length) .offsetOverflow : Reading Nat) (offset + extra.length)) :=
      Exact.okOr _ _ _
    refine (hend.bind (T := fun e _ literals v => offset + extra.length + literals.length = e ∧
      literals <+: payload.drop (offset + extra.length) ∧ v = e) ?_).congr ?_
    · rintro e u ⟨-, rfl⟩
      have hrange : Exact (fun literals v => Tex.getRange payload (offset + extra.length) e = some literals ∧
          v = offset + extra.length)
          ((okOr (Tex.getRange payload (offset + extra.length) e) (.lz4 "truncated literal run") : Reading Bytes)
            (offset + extra.length)) := Exact.okOr _ _ _
      refine (hrange.bind (T := fun literals _ literals' w => literals' = literals ∧ w = e) ?_).congr ?_
      · intro literals v _
        exact Exact.step (set_run _ _) (Exact.pure _ _)
      grind [Tex.getRange_eq_some]
    grind [checkedAdd]
  · intro literals u
    constructor
    · rintro ⟨length, t, ⟨extra, hspells, hread, rfl⟩, rfl, hliterals, rfl⟩
      grind [drop_of_read, prefix_append_right_inj]
    · rintro ⟨extra, hspells, hread, rfl⟩
      have hextra : extra <+: payload.drop offset := (prefix_append extra literals).trans hread
      rw [drop_of_read hextra] at hread
      exact ⟨_, _, ⟨extra, hspells, hextra, rfl⟩, rfl, (prefix_append_right_inj extra).mp hread,
        by rw [length_append, Nat.add_assoc]⟩

theorem readMatchOffset_exact {written : Nat} (hsize : payload.length ≤ 2 ^ 56) :
    Exact (fun matchOffset t => ∃ bytes : Bytes, bytes.length = 2 ∧ bytes <+: payload.drop offset ∧ t = offset + 2 ∧
        matchOffset = ofLe bytes ∧ 0 < matchOffset ∧ matchOffset ≤ written)
      (readMatchOffset payload written offset) := by
  refine Exact.step (get_run _) ?_
  rw [min_eq_left (by omega)]
  have hrange : Exact (fun bytes v => Tex.getRange payload offset (offset + 2) = some bytes ∧ v = offset)
      ((okOr (Tex.getRange payload offset (offset + 2)) (.lz4 "truncated match offset") : Reading Bytes) offset) :=
    Exact.okOr _ _ _
  refine (hrange.bind (T := fun bytes _ matchOffset u => u = offset + 2 ∧ matchOffset = ofLe bytes ∧ 0 < matchOffset ∧
    matchOffset ≤ written) ?_).congr ?_
  · intro bytes v _
    refine Exact.step (set_run _ _) ?_
    grind [Exact.fail, Exact.pure]
  grind [Tex.getRange_eq_some]

end

end Payload

variable {output : Bytes}

theorem copyMatch_exact {decodedSize matchOffset count offset : Nat} (hpos : 0 < matchOffset)
    (hle : matchOffset ≤ output.length) : Exact (fun out t => (0 < count → output.length + count ≤ decodedSize) ∧
        out = Lz77.copyBack matchOffset count output ∧ t = offset)
      (copyMatch decodedSize matchOffset count output offset) := by
  induction count generalizing output with
  | zero => exact (Exact.pure output offset).congr fun out t => by simp
  | succ count ih =>
    obtain ⟨byte, hbyte⟩ := Lz77.exists_source hpos hle
    have hsource : subUsize output.length matchOffset offset =
        (.ok (output.length - matchOffset) offset : EStateM.Result (Fault TexParseError) Nat Nat) := by
      rw [subUsize, if_pos hle, pure_run]
    refine Exact.step hsource ?_
    rw [hbyte]
    have hlen : (output ++ [byte]).length = output.length + 1 := by rw [length_append, length_singleton]
    refine (Exact.ite (fun _ => Exact.fail _ _)
      (fun _ => @ih (output ++ [byte]) (by omega))).congr fun out t => ?_
    grind [Lz77.copyBack_succ]

/-- A round at the end of the payload, one that takes its last literals, and one that takes a whole sequence. -/
inductive Taken (payload : Bytes) (decodedSize : Nat) (output : Bytes) (offset : Nat) : Round Bytes Bytes → Nat → Prop where
  | finished (h : offset = payload.length) : Taken payload decodedSize output offset (.done output) offset
  | last {token : UInt8} {extra literals : Bytes} (hdrop : payload.drop offset = token :: (extra ++ literals))
      (hlen : SpellsLength (token.toNat >>> 4) extra literals.length) :
      Taken payload decodedSize output offset (.done (output ++ literals)) payload.length
  | copy {token : UInt8} {extra literals bytes extra' : Bytes} {length t : Nat}
      (hdrop : payload.drop offset = token :: (extra ++ (literals ++ (bytes ++ (extra' ++ payload.drop t)))))
      (ht : offset < t ∧ t ≤ payload.length) (hlen : SpellsLength (token.toNat >>> 4) extra literals.length)
      (hbytes : bytes.length = 2) (hmatch : SpellsLength (token.toNat &&& 0x0f) extra' length)
      (hwithin : 0 < ofLe bytes ∧ ofLe bytes ≤ (output ++ literals).length)
      (hfits : (output ++ literals).length + (length + 4) ≤ decodedSize) :
      Taken payload decodedSize output offset (.again (Lz77.copyBack (ofLe bytes) (length + 4) (output ++ literals))) t

variable {payload : Bytes} {decodedSize offset : Nat} {t : Nat}

theorem taken_iff {token : UInt8} (htoken : payload[offset]? = some token) {round : Round Bytes Bytes} :
    Taken payload decodedSize output offset round t ↔
      ∃ literals u, (∃ extra, SpellsLength (token.toNat >>> 4) extra literals.length ∧
          extra ++ literals <+: payload.drop (offset + 1) ∧ u = offset + 1 + (extra ++ literals).length) ∧
        ((u = payload.length ∧ round = .done (output ++ literals) ∧ t = u) ∨
          (u ≠ payload.length ∧ ∃ matchOffset v, (∃ bytes : Bytes, bytes.length = 2 ∧ bytes <+: payload.drop u ∧ v = u + 2 ∧
              matchOffset = ofLe bytes ∧ 0 < matchOffset ∧ matchOffset ≤ (output ++ literals).length) ∧
            ∃ length, Spelled payload v (SpellsLength (token.toNat &&& 0x0f)) length t ∧
              (output ++ literals).length + (length + 4) ≤ decodedSize ∧
              round = .again (Lz77.copyBack matchOffset (length + 4) (output ++ literals)))) := by
  have hdrop := drop_of_getElem? htoken
  have hlt := (List.getElem?_eq_some_iff.mp htoken).1
  constructor
  · intro h
    cases h with
    | finished h => omega
    | @last token' extra literals hrest hlen => grind
    | @copy token' extra literals bytes extra' length t hrest ht hlen hbytes hmatch hwithin hfits =>
      rw [hdrop] at hrest
      obtain ⟨rfl, hall⟩ := List.cons.inj hrest
      have hliterals : extra ++ literals <+: payload.drop (offset + 1) :=
        ⟨bytes ++ (extra' ++ payload.drop t), by rw [hall, append_assoc]⟩
      have hnext := drop_of_read hliterals
      rw [hall, ← append_assoc, append_cancel_left_eq] at hnext
      have hpair : bytes <+: payload.drop (offset + 1 + (extra ++ literals).length) := ⟨_, hnext⟩
      have hlast := drop_of_read hpair
      rw [← hnext, append_cancel_left_eq, hbytes] at hlast
      have hsum := congrArg List.length hnext
      have hsum' := congrArg List.length hlast
      simp only [length_append, length_drop] at hsum hsum'
      refine ⟨literals, _, ⟨extra, hlen, hliterals, rfl⟩, .inr ⟨?_, ofLe bytes, _, ⟨bytes, hbytes, hpair, rfl, rfl, hwithin⟩,
        length, ⟨extra', hmatch, ⟨_, hlast⟩, ?_⟩, hfits, rfl⟩⟩
      · rw [length_append]
        omega
      · rw [length_append]
        omega
  · rintro ⟨literals, u, ⟨extra, hlen, hliterals, rfl⟩, ⟨hend, rfl, rfl⟩ | ⟨hmore, matchOffset, v,
      ⟨bytes, hbytes, hpair, rfl, rfl, hwithin⟩, length, ⟨extra', hmatch, hlast, rfl⟩, hfits, rfl⟩⟩
    · have hnext := drop_of_read hliterals
      rw [hend, drop_length, append_nil] at hnext
      rw [hend]
      exact .last (hdrop.trans (congrArg _ hnext)) hlen
    · have hu := length_of_read hlt hliterals
      have hv := length_of_read hu hpair
      rw [hbytes] at hv
      have hw := length_of_read hv hlast
      have hnext := drop_of_read hliterals
      rw [drop_of_read hpair, hbytes, drop_of_read hlast, append_assoc] at hnext
      exact .copy (hdrop.trans (congrArg _ hnext)) ⟨by omega, hw⟩ hlen hbytes hmatch hwithin hfits

theorem decodeRound_exact (hoffset : offset ≤ payload.length) (hsize : payload.length ≤ 2 ^ 56) :
    Exact (Taken payload decodedSize output offset) (decodeRound payload decodedSize output offset) := by
  refine Exact.step (get_run offset) ?_
  by_cases hlt : offset < payload.length
  · rw [if_pos hlt]
    have htoken := getElem?_eq_getElem hlt
    rw [htoken, expect_some]
    refine Exact.step (pure_run _ _) (Exact.step (set_run _ _) ?_)
    refine ((readLiterals_exact (by omega) hsize).bind ?_).congr fun round t => (taken_iff htoken).symm
    rintro literals u ⟨extra, hlen, hliterals, rfl⟩
    have hu := length_of_read hlt hliterals
    refine Exact.step (get_run _) (Exact.ite (fun _ => Exact.pure _ _) fun _ => ?_)
    refine (readMatchOffset_exact hu hsize).bind ?_
    rintro matchOffset v ⟨bytes, hbytes, hpair, rfl, rfl, hpos, hle⟩
    have hv := length_of_read hu hpair
    rw [hbytes] at hv
    refine ((extendedLength_exact hv hsize).bind (T := fun length t round w => w = t ∧
      (output ++ literals).length + (length + 4) ≤ decodedSize ∧
      round = .again (Lz77.copyBack (ofLe bytes) (length + 4) (output ++ literals))) ?_).congr ?_
    · rintro length t ⟨extra', hmatch, hlast, rfl⟩
      have hw := length_of_read hv hlast
      have hnibble : (payload[offset].toNat &&& 0x0f) ≤ 15 := Nat.and_le_right
      have hlength := hmatch.le hnibble
      have hadd : (addUsize length 4 : Reading Nat) (offset + 1 + (extra ++ literals).length + 2 + extra'.length) =
          .ok (length + 4) (offset + 1 + (extra ++ literals).length + 2 + extra'.length) := by
        rw [addUsize, checkedAdd, if_pos (by omega)]
        rfl
      refine Exact.step hadd ?_
      refine ((copyMatch_exact hpos hle).bind (T := fun out t round w => round = .again out ∧ w = t)
        fun out t _ => Exact.pure _ _).congr fun round w => ?_
      grind
    grind
  · rw [if_neg hlt]
    refine (Exact.pure (Round.done output) offset).congr fun round t => ?_
    constructor
    · rintro ⟨rfl, rfl⟩
      exact .finished (by omega)
    grind +splitImp +splitIndPred

/-- Every copied run ends within the size that was declared. -/
def Fits (decodedSize : Nat) : Bytes → List (Lz77.Sequence UInt8) → Prop
  | _, [] => True
  | output, sequence :: rest =>
      (sequence.copy ≠ none → (sequence.expand output).length ≤ decodedSize) ∧ Fits decodedSize (sequence.expand output) rest

theorem fits_of_length {sequences : List (Lz77.Sequence UInt8)}
    (h : Lz77.Within output sequences) (hsize : (Lz77.expand output sequences).length ≤ decodedSize) :
    Fits decodedSize output sequences := by
  induction sequences generalizing output with
  | nil => trivial
  | cons sequence rest ih => exact ⟨fun _ => (Lz77.length_le_expand h.2).trans hsize, ih h.2 hsize⟩

def Expands (payload : Bytes) (decodedSize : Nat) (output : Bytes) (offset : Nat) (out : Bytes) (t : Nat) : Prop :=
  ∃ sequences, Spells sequences (payload.drop offset) ∧ Lz77.Within output sequences ∧
    Fits decodedSize output sequences ∧ out = Lz77.expand output sequences ∧ t = payload.length

theorem expands_iff (hoffset : offset ≤ payload.length) {out : Bytes} :
    Expands payload decodedSize output offset out t ↔ Taken payload decodedSize output offset (.done out) t ∨
      ∃ next u, Taken payload decodedSize output offset (.again next) u ∧ Expands payload decodedSize next u out t := by
  constructor
  · rintro ⟨sequences, hspells, hwithin, hfits, rfl, rfl⟩
    generalize hdrop : payload.drop offset = bytes at hspells
    cases hspells with
    | nil =>
      have hend := drop_eq_nil_iff.mp hdrop
      have hoffset : offset = payload.length := by omega
      have hfinished : Taken payload decodedSize output offset (.done output) offset := .finished hoffset
      exact .inl (hoffset ▸ hfinished)
    | last hlen => exact .inl (.last hdrop hlen)
    | @copy token extra literals pair extra' tail length rest hlen hpair hmatch hrest =>
      obtain ⟨hsequence, hwithin⟩ := hwithin
      obtain ⟨hsize, hfits⟩ := hfits
      have hcopy := hsequence _ rfl
      have hsum := congrArg List.length hdrop
      simp only [length_drop, length_cons, length_append] at hsum
      have htail : payload.drop (payload.length - tail.length) = tail := by
        have hsuffix : tail <:+ payload.drop offset :=
          ⟨token :: (extra ++ (literals ++ (pair ++ extra'))), by rw [hdrop]; simp⟩
        exact (suffix_iff_eq_drop.mp (hsuffix.trans (drop_suffix _ _))).symm
      refine .inr ⟨_, payload.length - tail.length, .copy (by rw [htail]; exact hdrop) ⟨by omega, by omega⟩ hlen hpair hmatch
        hcopy ?_, rest, by rw [htail]; exact hrest, hwithin, hfits, rfl, rfl⟩
      grind [Lz77.Sequence.expand, Lz77.length_copyBack]
  · rintro (hdone | ⟨next, u, hagain, sequences, hspells, hwithin, hfits, rfl, rfl⟩)
    · cases hdone with
      | finished h =>
        refine ⟨[], ?_, trivial, trivial, rfl, h⟩
        rw [h, drop_length]
        exact .nil
      | @last token extra literals hdrop hlen =>
        refine ⟨[⟨literals, none⟩], by rw [hdrop]; exact .last hlen, ⟨fun _ h => ?_, trivial⟩, ⟨fun h => ?_, trivial⟩, rfl, rfl⟩
        · cases h
        · exact (h rfl).elim
    · cases hagain with
      | @copy token extra literals pair extra' length u hdrop ht hlen hpair hmatch hcopy hsize =>
        refine ⟨⟨literals, some ⟨ofLe pair, length + 4⟩⟩ :: sequences, by rw [hdrop]; exact .copy hlen hpair hmatch hspells,
          ⟨fun found h => ?_, hwithin⟩, ⟨fun _ => ?_, hfits⟩, rfl, rfl⟩
        · cases h
          exact hcopy
        grind [Lz77.Sequence.expand, Lz77.length_copyBack]

theorem decodeLoop_exact (hsize : payload.length ≤ 2 ^ 56) :
    Exact (Expands payload decodedSize [] 0) (loop (decodeRound payload decodedSize) (payload.length + 1) [] 0) := by
  refine Exact.loop (P := fun _ offset => offset ≤ payload.length) (T := Expands payload decodedSize)
    (fun _ offset => payload.length - offset) (fun output offset h => decodeRound_exact h hsize) ?_
    (fun output offset h out t => expands_iff h) (Nat.zero_le _) (by omega)
  rintro output offset h next t htaken
  cases htaken with
  | copy _ ht => exact ⟨ht.2, by omega⟩

theorem decode_exact (hsize : payload.length ≤ 2 ^ 56) (hcap : decodedSize < 2 ^ 63) :
    Exact (fun out t => (∃ sequences, Spells sequences payload ∧ Lz77.Within [] sequences ∧
        out = Lz77.expand [] sequences) ∧ out.length = decodedSize ∧ t = payload.length)
      (decode payload decodedSize 0) := by
  have hnew : withCapacity decodedSize 0 = .ok [] 0 := by
    rw [withCapacity, if_pos hcap]
    rfl
  refine Exact.step hnew (((decodeLoop_exact hsize).bind (T := fun output u out t => out = output ∧ t = u ∧
    output.length = decodedSize) fun output u _ => ?_).congr fun out t => ?_)
  · grind [Exact.fail, Exact.pure]
  · constructor
    · rintro ⟨output, u, ⟨sequences, hspells, hwithin, -, rfl, rfl⟩, rfl, rfl, hlen⟩
      grind
    · rintro ⟨⟨sequences, hspells, hwithin, rfl⟩, hlen, rfl⟩
      exact ⟨_, _, ⟨sequences, hspells, hwithin, fits_of_length hwithin (le_of_eq hlen), rfl, rfl⟩, rfl, rfl, hlen⟩

/-- The decoder always comes back without a panic, and with a value exactly for a block of sequences whose expansion
has the declared size. -/
theorem decodeLz4Block_eq_ok_iff (payload : Bytes) (decodedSize : Nat) (hsize : payload.length ≤ 2 ^ 56)
    (hcap : decodedSize < 2 ^ 63) :
    (∀ fault, decodeLz4Block payload decodedSize = .error fault → ∃ e, fault = .error e) ∧
      ∀ out, decodeLz4Block payload decodedSize = .ok out ↔ ∃ sequences, Spells sequences payload ∧
        Lz77.Within [] sequences ∧ Lz77.expand [] sequences = out ∧ out.length = decodedSize := by
  have hexact := decode_exact hsize hcap
  rw [decodeLz4Block]
  cases hrun : decode payload decodedSize 0 with
  | error fault t =>
    refine ⟨fun f h => ?_, fun out => ?_⟩
    · cases h
      exact hexact.safe fault t hrun
    constructor
    · intro h
      cases h
    · rintro ⟨sequences, hspells, hwithin, rfl, hlen⟩
      have hok := (hexact.ok _ payload.length).mpr ⟨⟨sequences, hspells, hwithin, rfl⟩, hlen, rfl⟩
      rw [hrun] at hok
      cases hok
  | ok output t =>
    obtain ⟨⟨sequences, hspells, hwithin, hout⟩, hlen, -⟩ := (hexact.ok output t).mp hrun
    refine ⟨(fun f h => by cases h), fun out => ?_⟩
    constructor
    · grind
    · rintro ⟨sequences', hspells', hwithin', rfl, hlen'⟩
      have hok := (hexact.ok _ payload.length).mpr ⟨⟨sequences', hspells', hwithin', rfl⟩, hlen', rfl⟩
      rw [hrun] at hok
      cases hok
      rfl

theorem decodeLz4Block_overlapping :
    (∀ fault, decodeLz4Block [0x32, 97, 98, 99, 3, 0] 9 = .error fault → ∃ e, fault = .error e) ∧
      ∀ out, decodeLz4Block [0x32, 97, 98, 99, 3, 0] 9 = .ok out ↔ ∃ sequences,
        Spells sequences [0x32, 97, 98, 99, 3, 0] ∧ Lz77.Within [] sequences ∧ Lz77.expand [] sequences = out ∧
          out.length = 9 :=
  decodeLz4Block_eq_ok_iff [0x32, 97, 98, 99, 3, 0] 9 (by decide) (by decide)

example : decodeLz4Block [0x32, 97, 98, 99, 3, 0] 9 = .ok [97, 98, 99, 97, 98, 99, 97, 98, 99] := by decide +kernel

end Lz4Block

end TensorDE.Wallpaper
