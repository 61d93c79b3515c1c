import TensorDE.Kdl.SpaceBounds
import TensorDE.Kdl.Strings

set_option linter.dupNamespace false

namespace TensorDE.Kdl

open Effect Utf8 List

variable {src : Source} {i j start : Nat} {rest : Str} {c : Char}

section Identifier

theorem identRound_moves (h : OnBoundary src j) (hi : i ≤ j) :
    Moves src i (Round.Meets (fun _ k => j < k) Any) (identRound src () j) := by
  obtain ⟨rest, h⟩ := h
  refine .step (peekChar_run h) ?_
  cases rest with
  | nil => exact .ok hi h.boundary trivial
  | cons c rest =>
    dsimp only [head?_cons]
    split
    · exact .ok hi h.boundary trivial
    · have hlt := h.lt_tail
      refine .step (bumpChar_cons h) ?_
      exact .ok (by omega) hlt.2 hlt.1

theorem bumpChar_moves (h : OnBoundary src j) (hi : i ≤ j) : Moves src i (fun _ k => j ≤ k) (bumpChar src j) := by
  obtain ⟨rest, h⟩ := h
  cases rest with
  | nil =>
    rw [bumpChar_nil h]
    exact .ok hi h.boundary le_rfl
  | cons c rest =>
    have hlt := h.lt_tail
    rw [bumpChar_cons h]
    exact .ok (by omega) hlt.2 hlt.1.le

theorem identAfterDot_moves (h : At src j (c :: rest)) (hstart : OnBoundary src start) (hi : i ≤ start) (hj : start ≤ j) :
    Moves src i (Past j) (identAfterDot src start j) := by
  have hlt := h.lt_tail
  refine .step (bumpChar_cons h) (.step (peekChar_run h.tail) ?_)
  cases rest with
  | nil => exact .ok (by omega) hlt.2 hlt.1
  | cons n rest =>
    dsimp only [head?_cons]
    split
    · exact .fail hi hstart
    · split
      · exact .ok (by omega) hlt.2 hlt.1
      · have hbump := bumpChar_moves h.tail.boundary (i := i) (by omega)
        exact hbump.bind fun _ k hk hb hle => .ok hk hb (show j < k by omega)

theorem identAfterSign_moves (h : At src j (c :: rest)) (hstart : OnBoundary src start) (hi : i ≤ start) (hj : start ≤ j) :
    Moves src i (Past j) (identAfterSign src start j) := by
  have hlt := h.lt_tail
  refine .step (bumpChar_cons h) (.step (peekChar_run h.tail) ?_)
  cases rest with
  | nil => exact .ok (by omega) hlt.2 hlt.1
  | cons n rest =>
    dsimp only [head?_cons]
    split
    · exact .fail hi hstart
    · split
      · exact (identAfterDot_moves h.tail hstart hi (by omega)).mono le_rfl fun _ k _ _ hk => hlt.1.trans hk
      · split
        · exact .ok (by omega) hlt.2 hlt.1
        · have hbump := bumpChar_moves h.tail.boundary (i := i) (by omega)
          exact hbump.bind fun _ k hk hb hle => .ok hk hb (show j < k by omega)

theorem identStart_moves (h : At src i (c :: rest)) : Moves src i (Past i) (identStart src c i i) := by
  rw [identStart]
  split
  · exact identAfterSign_moves h h.boundary le_rfl le_rfl
  · split
    · exact identAfterDot_moves h h.boundary le_rfl le_rfl
    · split
      · exact .fail le_rfl h.boundary
      · have hlt := h.lt_tail
        refine .step (bumpChar_cons h) ?_
        exact .ok hlt.1.le hlt.2 hlt.1

theorem identText_moves (h : At src i rest) (hj : OnBoundary src j) (hlt : i < j) :
    Moves src i (Past i) (identText src i j) := by
  refine .step (get_run j) ?_
  split
  · exact .fail hlt.le hj
  · obtain ⟨post, hpost⟩ := hj
    obtain ⟨s, -, -, hslice⟩ := inputSlice_run h hpost hlt.le
    refine .step (hslice j) ?_
    split
    · exact .fail hlt.le hpost.boundary
    · exact .ok hlt.le hpost.boundary hlt

theorem parseIdentifierString_moves (h : OnBoundary src i) : Moves src i (Past i) (parseIdentifierString src i) := by
  obtain ⟨rest, h⟩ := h
  refine .step (get_run i) (.step (peekChar_run h) ?_)
  cases rest with
  | nil => exact .fail le_rfl h.boundary
  | cons c rest =>
    dsimp only [head?_cons]
    split
    · exact .fail le_rfl h.boundary
    · refine (identStart_moves h).bind fun _ k hk hb hik => ?_
      have hscan : Moves src k Any (loop (identRound src) src.rounds () k) :=
        Moves.scan (fun _ _ hl hbl => identRound_moves hbl hl) () le_rfl hb
      refine Moves.bind (hscan.mono hk fun _ l hl _ _ => hl) fun _ l hl hbl hkl => ?_
      exact identText_moves h hbl (Nat.lt_of_lt_of_le hik hkl)

end Identifier

section Escape

theorem hexRound_moves (h : OnBoundary src j) (hi : i ≤ j) :
    Moves src i (Round.Meets (fun _ k => j < k) Any) (hexRound src () j) := by
  obtain ⟨rest, h⟩ := h
  refine .step (peekByte_run h) ?_
  cases rest with
  | nil => exact .ok hi h.boundary trivial
  | cons c rest =>
    cases hb : (encode (c :: rest)).head? with
    | none => exact .ok hi h.boundary trivial
    | some b =>
      dsimp only
      split
      · rename_i hhex
        -- a hex digit is ASCII, so the byte is the whole character
        have hofNat : (Char.ofNat b.toNat).toNat = b.toNat := by
          rw [Char.ofNat, dif_pos (Or.inl (by have := b.toNat_lt; omega))]
          rfl
        rw [isAsciiHexdigit_iff, hofNat] at hhex
        have hlt : b.toNat < 128 := by omega
        have hc : c = Char.ofNat b.toNat := by
          rw [head?_encode hlt] at hb
          exact Option.some.inj hb
        have hc128 : c.toNat < 128 := by
          rw [hc, hofNat]
          exact hlt
        refine .step (bumpByte_run h hc128) ?_
        have htail := h.tail
        rw [utf8Size_ascii hc128] at htail
        exact .ok (by omega) htail.boundary (Nat.lt_succ_self j)
      · exact .ok hi h.boundary trivial

theorem bumpByte_moves {c : Char} (h : At src j rest) (hc : c.toNat < 128)
    (hbyte : (encode rest).head? = some c.toUInt8) (hi : i ≤ j) : Moves src i (Past j) (bumpByte src j) := by
  obtain ⟨post, rfl⟩ := head_of_byte hc hbyte
  have htail := h.tail
  rw [utf8Size_ascii hc] at htail
  rw [bumpByte_run h hc]
  exact .ok (by omega) htail.boundary (Nat.lt_succ_self j)

section

variable (h : OnBoundary src j)
include h

theorem unicodeEscape_moves (hi : i ≤ j) : Moves src i Any (unicodeEscape src j) := by
  obtain ⟨rest, h⟩ := h
  refine .step (peekByte_run h) ?_
  split
  · exact .fail hi h.boundary
  · rename_i hopen
    refine (bumpByte_moves h (by decide) (not_not.mp hopen) hi).bind fun _ k hk hb _ => ?_
    obtain ⟨digits, hdigits⟩ := hb
    refine .step (get_run k) ?_
    have hscan : Moves src k Any (loop (hexRound src) src.rounds () k) :=
      Moves.scan (fun _ _ hl hbl => hexRound_moves hbl hl) () le_rfl hdigits.boundary
    refine Moves.bind (hscan.mono hk fun _ l hl _ _ => hl) fun _ l hl hbl hkl => ?_
    obtain ⟨post, hpost⟩ := hbl
    refine .step (peekByte_run hpost) ?_
    split
    · exact .fail hl hpost.boundary
    · rename_i hclose
      obtain ⟨s, -, -, hslice⟩ := inputSlice_run hdigits hpost hkl
      refine .step (get_run l) (.step (hslice l) ?_)
      split
      · exact .fail hl hpost.boundary
      · split
        · exact .fail hl hpost.boundary
        · refine (bumpByte_moves hpost (by decide) (not_not.mp hclose) hl).bind fun _ m hm hbm _ => ?_
          cases charFromU32 (digitsValue 16 s) with
          | some c => exact .ok hm hbm trivial
          | none => exact .fail hm hbm

theorem wsEscapeRound_moves (hi : i ≤ j) :
    Moves src i (Round.Meets (fun _ k => j < k) Any) (wsEscapeRound src () j) := by
  obtain ⟨rest, h⟩ := h
  refine .step (peekChar_run h) ?_
  cases rest with
  | nil => exact .ok hi h.boundary trivial
  | cons n rest =>
    have hlt := h.lt_tail
    dsimp only [head?_cons]
    split
    · refine .step (bumpChar_cons h) ?_
      exact .ok (by omega) hlt.2 hlt.1
    · split
      · rename_i hnl
        refine Moves.bind ((consumeNewline_moves h).mono hi fun _ _ _ _ h => h) fun b k hk hb hbk => ?_
        exact .ok hk hb (hbk.1 (by rw [hbk.2]; exact hnl))
      · exact .ok hi h.boundary trivial

theorem interpretEscape_moves (hi : i ≤ j) : Moves src i (fun _ k => j ≤ k) (interpretEscape src j) := by
  obtain ⟨rest, h⟩ := h
  cases rest with
  | nil =>
    refine .step (bumpChar_nil h) ?_
    exact .fail hi h.boundary
  | cons c rest =>
    have hlt := h.lt_tail
    refine .step (bumpChar_cons h) ?_
    dsimp only
    cases simpleEscape c with
    | some ch => exact .ok (hi.trans hlt.1.le) hlt.2 hlt.1.le
    | none =>
      split
      · have hcode : Moves src j Any (unicodeEscape src (j + c.utf8Size)) := unicodeEscape_moves hlt.2 hlt.1.le
        refine Moves.bind (hcode.mono hi fun _ k hk _ _ => hk) fun _ k hk hb hjk => ?_
        exact .ok hk hb hjk
      · split
        · refine .step (peekByte_run h.tail) ?_
          refine (bumpByteIf_moves h.tail (c := '\n') (i := i) (by decide) (by simp) (by omega)).bind fun _ k hk hb hle => ?_
          have hscan : Moves src k Any (loop (wsEscapeRound src) src.rounds () k) :=
            Moves.scan (fun _ _ hl hbl => wsEscapeRound_moves hbl hl) () le_rfl hb
          refine Moves.bind (hscan.mono hk fun _ l hl _ _ => hl) fun _ l hl hbl hkl => ?_
          exact .ok hl hbl (hlt.1.le.trans (hle.trans hkl))
        · exact .fail (hi.trans hlt.1.le) hlt.2

end

theorem unescapeRound_moves (scratch : Str) (h : OnBoundary src j) (hi : i ≤ j) :
    Moves src i (Round.Meets (fun _ k => j < k) Any) (unescapeRound src scratch j) := by
  obtain ⟨rest, h⟩ := h
  refine .step (eof_run h) ?_
  split
  · exact .fail hi h.boundary
  · rename_i hne
    cases rest with
    | nil => simp at hne
    | cons c rest =>
      have hlt := h.lt_tail
      refine .step (bumpChar_cons h) ?_
      dsimp only
      split
      · exact .ok (by omega) hlt.2 trivial
      · split
        · have hesc := interpretEscape_moves hlt.2 (i := i) (by omega)
          refine hesc.bind fun _ k hk hb hle => ?_
          exact .ok hk hb (show j < k by omega)
        · split
          · exact .fail (by omega) hlt.2
          · split
            · exact .fail (by omega) hlt.2
            · exact .ok (by omega) hlt.2 hlt.1

theorem unescapeQuotedUntil_moves (h : OnBoundary src j) (hi : i ≤ j) :
    Moves src i (fun _ k => j ≤ k) (unescapeQuotedUntil src j) := by
  have hscan : Moves src j Any (loop (unescapeRound src) src.rounds [] j) :=
    Moves.scan (fun scratch _ hl hbl => unescapeRound_moves scratch hbl hl) [] le_rfl h
  refine Moves.bind (hscan.mono hi fun _ l hl _ _ => hl) fun _ l hl hbl hjl => ?_
  split
  · exact .fail hl hbl
  · exact .ok hl hbl hjl

end Escape

section Quoted

theorem At.of_byte {b : UInt8} (h : (encode src.input)[i]? = some b) (hb : b.toNat < 128) :
    ∃ post, At src i (Char.ofNat b.toNat :: post) := by
  grind [split_at_ascii, At, Char.ofNat_toNat, suffixAt_append]

theorem length_encode_input (src : Source) : (encode src.input).length = src.logicalEnd := rfl

theorem getElem?_of_findIdx {bytes : Bytes} {p : UInt8 → Bool} {index : Nat}
    (h : index + (bytes.drop index).findIdx p < bytes.length) :
    ∃ b, bytes[index + (bytes.drop index).findIdx p]? = some b ∧ p b = true := by
  have hlt : (bytes.drop index).findIdx p < (bytes.drop index).length := by
    rw [length_drop]
    omega
  refine ⟨_, ?_, findIdx_getElem (w := hlt)⟩
  grind

theorem findQuote_at (hi : i ≤ src.logicalEnd) (h : findQuote src.bytes i src.logicalEnd < src.logicalEnd) :
    i ≤ findQuote src.bytes i src.logicalEnd ∧ ∃ post, At src (findQuote src.bytes i src.logicalEnd) ('"' :: post) := by
  have hfind : findQuote src.bytes i src.logicalEnd = i + ((encode src.input).drop i).findIdx (· = 34) :=
    findQuote_eq src.padding hi
  rw [hfind] at h ⊢
  obtain ⟨b, hbyte, hb⟩ := getElem?_of_findIdx h
  have hb : b = 34 := by simpa using hb
  subst hb
  exact ⟨by omega, At.of_byte hbyte (by decide)⟩

theorem findQuoteOrEscape_at (src : Source) (i : Nat) (hi : i ≤ src.logicalEnd)
    (h : findQuoteOrEscape src.bytes i src.logicalEnd < src.logicalEnd) :
    i ≤ findQuoteOrEscape src.bytes i src.logicalEnd ∧
      ∃ c post, At src (findQuoteOrEscape src.bytes i src.logicalEnd) (c :: post) ∧ (c = '"' ∨ c = '\\') := by
  have hfind : findQuoteOrEscape src.bytes i src.logicalEnd =
      i + ((encode src.input).drop i).findIdx fun b => b = 34 || b = 92 := findQuoteOrEscape_eq src.padding hi
  rw [hfind] at h ⊢
  obtain ⟨b, hbyte, hb⟩ := getElem?_of_findIdx h
  refine ⟨by omega, Char.ofNat b.toNat, ?_⟩
  have hb : b = 34 ∨ b = 92 := by simpa using hb
  obtain rfl | rfl := hb
  · grind [At.of_byte]
  grind [At.of_byte]

theorem At.closer {quoteCount hashes : Nat} (h : At src i rest) (hle : i + quoteCount + hashes ≤ src.logicalEnd)
    (hquotes : ((src.bytes.drop i).take quoteCount).all (· = '"'.toUInt8) = true)
    (hhashes : ((src.bytes.drop (i + quoteCount)).take hashes).all (· = '#'.toUInt8) = true) :
    OnBoundary src (i + quoteCount + hashes) := by
  obtain ⟨pre, hpre, hbytes⟩ := h.bytes_split
  have hsize := h.size_eq
  have hlen : (encode rest).length = size rest := rfl
  rw [hbytes, List.append_assoc, drop_append_of_le_length (by omega), ← hpre, drop_length, nil_append,
    take_append_of_le_length (by omega)] at hquotes
  rw [hbytes, List.append_assoc, ← hpre, ← drop_drop, drop_left, drop_append_of_le_length (by omega),
    take_append_of_le_length (by rw [length_drop]; omega)] at hhashes
  have hascii : ∀ b ∈ (encode rest).take (quoteCount + hashes), b.toNat < 128 := by
    intro b hb
    rw [take_add, List.mem_append] at hb
    obtain hb | hb := hb
    · have : b = '"'.toUInt8 := by simpa using all_eq_true.mp hquotes b hb
      rw [this]
      decide
    · have : b = '#'.toUInt8 := by simpa using all_eq_true.mp hhashes b hb
      rw [this]
      decide
  obtain ⟨s, post, rfl, hs⟩ := split_ascii (by omega) hascii
  rw [Nat.add_assoc, ← hs]
  exact (h.append _).boundary

theorem findStringCloser_spec {quoteCount hashes fuel index closeAt endIndex : Nat} (hquotes : 0 < quoteCount)
    (hindex : index ≤ src.logicalEnd)
    (h : findStringCloser src.bytes src.logicalEnd quoteCount hashes fuel index = some (closeAt, endIndex)) :
    index ≤ closeAt ∧ closeAt < endIndex ∧ OnBoundary src closeAt ∧ OnBoundary src endIndex := by
  induction fuel generalizing index with
  | zero => simp [findStringCloser] at h
  | succ fuel ih =>
    rw [findStringCloser] at h
    dsimp only at h
    split at h
    · split at h
      · cases h
      · obtain ⟨hle, post, hpost⟩ := findQuote_at hindex (by omega)
        grind -linarith [hpost.boundary, hpost.closer]
    · cases h

theorem findCloser_spec {index quoteCount hashes closeAt endIndex : Nat} (hquotes : 0 < quoteCount)
    (hindex : index ≤ src.logicalEnd) (h : findCloser src index quoteCount hashes = some (closeAt, endIndex)) :
    index ≤ closeAt ∧ closeAt < endIndex ∧ OnBoundary src closeAt ∧ OnBoundary src endIndex := by
  have hmin : min src.logicalEnd src.bytes.length = src.logicalEnd := by
    simp [Source.bytes, length_encode_input]
  rw [findCloser, hmin] at h
  exact findStringCloser_spec hquotes hindex h

theorem quotedRound_moves {scan : Nat × Bool} (hstart : OnBoundary src start) (hi : i ≤ start) (hscan : start ≤ scan.1) :
    Moves src i (Round.Meets (fun scan' k => (k = start ∧ start ≤ scan'.1) ∧ scan.1 < scan'.1 ∧ scan'.1 ≤ src.logicalEnd + 1)
      (fun _ k => start ≤ k)) (quotedRound src start scan start) := by
  obtain ⟨at_, needsUnescape⟩ := scan
  rw [quotedRound]
  split
  · exact .fail hi hstart
  · dsimp only
    split
    · exact .fail hi hstart
    · obtain ⟨hle, c, post, hpost, hc⟩ := findQuoteOrEscape_at src at_ (by omega) (by omega)
      generalize findQuoteOrEscape src.bytes at_ src.logicalEnd = special at *
      have hc128 : c.toNat < 128 := by
        obtain rfl | rfl := hc <;> decide
      have hbyte : src.bytes[special]? = some c.toUInt8 := by
        have := hpost.getElem?_bytes 0
        rw [Nat.add_zero, encode_cons, encodeChar_ascii hc128] at this
        exact this
      refine .step (by rw [hbyte]; rfl) ?_
      obtain rfl | rfl := hc
      · obtain ⟨after, hafter⟩ := hstart
        obtain ⟨raw, -, -, hslice⟩ := inputSlice_run hafter hpost (by omega)
        refine .step (hslice start) ?_
        have hclosed : At src (special + 1) post := hpost.tail
        split
        · refine .step (set_run start start) ?_
          refine Moves.bind (unescapeQuotedUntil_moves hafter.boundary hi) fun _ k hk hb hle => ?_
          exact .ok hk hb hle
        · split
          · exact .fail hi hafter.boundary
          · split
            · exact .fail hi hafter.boundary
            · exact .ok (by omega) hclosed.boundary (show start ≤ special + 1 by omega)
      · exact .ok hi hstart ⟨⟨rfl, show start ≤ special + 2 by omega⟩, show at_ < special + 2 by omega,
          show special + 2 ≤ src.logicalEnd + 1 by omega⟩

theorem quotedLoop_moves (hstart : OnBoundary src start) (hi : i ≤ start) :
    Moves src i (fun _ k => start ≤ k) (loop (quotedRound src start) src.rounds (start, false) start) := by
  refine Moves.loop (P := fun scan k => (k = start ∧ start ≤ scan.1) ∧ scan.1 ≤ src.logicalEnd + 1)
    (fun scan _ => src.logicalEnd + 1 - scan.1) (fun scan k _ _ hP => ?_) hi hstart
    ⟨⟨rfl, le_rfl⟩, hstart.le.trans (Nat.le_succ _)⟩ (by simp only [Source.rounds]; omega)
  grind [quotedRound_moves]

end Quoted

section Multiline

theorem splitLastNewline_some {text content line : Str} (h : splitLastNewline text = some (content, line)) :
    text = content ++ '\n' :: line := by
  rw [splitLastNewline] at h
  split at h
  · simp only [Option.some.injEq, Prod.mk.injEq] at h
    obtain ⟨hcontent, hline⟩ := h
    -- on the reversed text: the line, the line feed that stopped it, the rest
    obtain ⟨d, post, hdrop⟩ : ∃ d post, text.reverse.dropWhile (· ≠ '\n') = d :: post := by
      refine exists_cons_of_ne_nil fun hnil => ?_
      grind [takeWhile_append_dropWhile]
    have hd : d = '\n' := by
      have hhead := head?_dropWhile_not (fun c => decide (c ≠ '\n')) text.reverse
      rw [hdrop] at hhead
      simpa using hhead
    have hsplit := takeWhile_append_dropWhile (p := fun c => decide (c ≠ '\n')) (l := text.reverse)
    rw [hdrop, hd] at hsplit
    have htext : text = post.reverse ++ '\n' :: line := by
      rw [← reverse_reverse text, ← hsplit, ← hline]
      simp
    have hlen : text.length - line.length - 1 = post.reverse.length := by
      rw [htext]
      simp only [length_append, length_cons]
      omega
    rw [hline, hlen, htext, take_left] at hcontent
    rw [← hcontent, htext]
  · cases h

theorem closingLine_moves {bodyStart pos start closeAt endIndex : Nat} (hj : OnBoundary src j) (hi : i ≤ j)
    (hstart : OnBoundary src start) (hclose : OnBoundary src closeAt) (hle : start ≤ closeAt)
    (hbody : bodyStart ≤ pos) (hpos : pos ≤ closeAt) (hlt : closeAt < endIndex) (hend : OnBoundary src endIndex) :
    Moves src i (Round.Meets (fun pos' k => k = j ∧ pos < pos' ∧ pos' ≤ src.logicalEnd)
      (fun found k => k = j ∧ ∀ closeAt endIndex, found = some (closeAt, endIndex) →
        bodyStart ≤ closeAt ∧ closeAt < endIndex ∧ OnBoundary src closeAt ∧ OnBoundary src endIndex)) ((do
        let closing ← inputSlice src start closeAt
        if closingLinePrefixOk false closing then pure (.done (some (closeAt, endIndex)))
        else pure (.again (closeAt + 1)) : Lex (Round Nat (Option (Nat × Nat)))) j) := by
  have hendLe := hend.le
  obtain ⟨after, hafter⟩ := hstart
  obtain ⟨post, hpost⟩ := hclose
  obtain ⟨closing, -, -, hslice⟩ := inputSlice_run hafter hpost hle
  refine .step (hslice j) ?_
  split
  · refine .ok hi hj ⟨rfl, fun a b h => ?_⟩
    grind [hpost.boundary]
  · exact .ok hi hj ⟨rfl, show pos < closeAt + 1 by omega, show closeAt + 1 ≤ src.logicalEnd by omega⟩

theorem multilineCloserRound_moves {bodyStart hashes pos : Nat} (hbody : OnBoundary src bodyStart)
    (hj : OnBoundary src j) (hi : i ≤ j) (hpos : bodyStart ≤ pos) (hend : pos ≤ src.logicalEnd) :
    Moves src i (Round.Meets (fun pos' k => k = j ∧ pos < pos' ∧ pos' ≤ src.logicalEnd)
      (fun found k => k = j ∧ ∀ closeAt endIndex, found = some (closeAt, endIndex) →
        bodyStart ≤ closeAt ∧ closeAt < endIndex ∧ OnBoundary src closeAt ∧ OnBoundary src endIndex))
      (multilineCloserRound src bodyStart hashes pos j) := by
  rw [multilineCloserRound]
  cases hfind : findCloser src pos 3 hashes with
  | none => exact .ok hi hj ⟨rfl, by simp⟩
  | some found =>
    obtain ⟨closeAt, endIndex⟩ := found
    obtain ⟨hle, hlt, ⟨post, hclose⟩, hendIndex⟩ := findCloser_spec (by decide) hend hfind
    have hendLe := hendIndex.le
    obtain ⟨before, hbefore, hsize, hslice⟩ := inputSlice_run (At.start src) hclose (Nat.zero_le _)
    refine .step (hslice j) ?_
    split
    · exact .ok hi hj ⟨rfl, show pos < closeAt + 1 by omega, show closeAt + 1 ≤ src.logicalEnd by omega⟩
    · -- the closing line starts behind a line feed, or at the body
      cases hlast : splitLastNewline before with
      | none => grind +splitImp +splitIndPred [closingLine_moves, hclose.boundary]
      | some cut =>
        obtain ⟨content, line⟩ := cut
        have htext := splitLastNewline_some hlast
        have hstart : At src (closeAt - size line) (line ++ post) := by
          have hat : At src (0 + size (content ++ ['\n'])) (line ++ post) := by
            apply At.append (content ++ ['\n'])
            rw [At, suffixAt_zero, hbefore, htext]
            simp
          have : closeAt - size line = 0 + size (content ++ ['\n']) := by
            rw [htext] at hsize
            simp only [size_append, size_cons, size_nil] at hsize ⊢
            omega
          rwa [this]
        grind +splitImp +splitIndPred [closingLine_moves, hclose.boundary, hstart.boundary]

/-- The closer found lies behind the start of the body, and both its ends are boundaries. -/
def ClosesAfter (src : Source) (bodyStart : Nat) (found : Option (Nat × Nat)) : Prop :=
  ∀ closeAt endIndex, found = some (closeAt, endIndex) →
    bodyStart ≤ closeAt ∧ closeAt < endIndex ∧ OnBoundary src closeAt ∧ OnBoundary src endIndex

theorem findMultilineCloser_moves {bodyStart hashes : Nat} (raw : Bool) (hbody : OnBoundary src bodyStart)
    (hi : i ≤ bodyStart) : Moves src i (fun found k => k = bodyStart ∧ ClosesAfter src bodyStart found)
      (findMultilineCloser src bodyStart hashes raw bodyStart) := by
  rw [findMultilineCloser]
  split
  · exact .ok hi hbody ⟨rfl, fun closeAt endIndex h => findCloser_spec (by decide) hbody.le h⟩
  · refine Moves.loop (P := fun pos k => k = bodyStart ∧ bodyStart ≤ pos ∧ pos ≤ src.logicalEnd)
      (fun pos _ => src.logicalEnd + 1 - pos) (fun pos k _ _ hP => ?_) hi hbody ⟨rfl, le_rfl, hbody.le⟩
      (by simp only [Source.rounds]; omega)
    grind [multilineCloserRound_moves, ClosesAfter]

theorem consumeExact_moves {s : Str} (h : At src j rest) (hi : i ≤ j) :
    Moves src i (fun b k => j ≤ k ∧ (b = true → k = j + size s) ∧ (b = false → k = j)) (consumeExact src s j) := by
  refine .step (startsWith_run h s) ?_
  split
  · rename_i hs
    exact .ok (hi.trans (Nat.le_add_right j _)) (h.skip hs) ⟨Nat.le_add_right j _, fun _ => rfl, by simp⟩
  · exact .ok hi h.boundary ⟨le_rfl, by simp, fun _ => rfl⟩

theorem parseMultilineString_moves (hashes : Nat) (raw : Bool) (h : OnBoundary src j) (hi : i ≤ j) :
    Moves src i (Past j) (parseMultilineString src hashes raw j) := by
  obtain ⟨rest, h⟩ := h
  refine (consumeExact_moves h hi).bind fun b k hk hb hbk => ?_
  split
  · obtain ⟨rest', h'⟩ := hb
    refine Moves.bind ((consumeNewline_moves h').mono hk fun _ l hl _ h => And.intro hl h) fun b l hl hb hbl => ?_
    split
    · refine .step (get_run l) ?_
      refine (findMultilineCloser_moves raw hb hl).bind fun found m hm hbm hfound => ?_
      obtain ⟨rfl, hcloses⟩ := hfound
      cases found with
      | none => exact .fail hm hbm
      | some found =>
        obtain ⟨closeAt, endIndex⟩ := found
        obtain ⟨hle, hlt, ⟨post, hclose⟩, hend⟩ := hcloses closeAt endIndex rfl
        obtain ⟨after, hafter⟩ := hbm
        obtain ⟨rawBody, -, -, hslice⟩ := inputSlice_run hafter hclose hle
        refine .step (hslice m) ?_
        cases (if raw then processRawMultiline rawBody else processEscapedMultiline rawBody) with
        | error message => exact .fail hm hafter.boundary
        | ok text =>
          refine .step (set_run m endIndex) ?_
          have hpast : j < endIndex := by
            omega
          split
          · exact .fail (by omega) hend
          · exact .ok (by omega) hend hpast
    · exact .fail hl hb
  · exact .fail hk hb

end Multiline

theorem parseQuotedString_moves (h : OnBoundary src i) : Moves src i (Past i) (parseQuotedString src i) := by
  obtain ⟨rest, h⟩ := h
  refine .step (startsWith_run h _) ?_
  split
  · exact parseMultilineString_moves 0 false h.boundary le_rfl
  · refine .step (peekByte_run h) ?_
    split
    · exact .fail le_rfl h.boundary
    · rename_i hquote
      refine (bumpByte_moves h (by decide) (not_not.mp hquote) le_rfl).bind fun _ k hk hb hlt => ?_
      refine .step (get_run k) ?_
      exact (quotedLoop_moves hb hk).mono le_rfl fun _ l _ _ hl => Nat.lt_of_lt_of_le hlt hl

theorem hashesRound_moves (hashes : Nat) (h : OnBoundary src j) (hi : i ≤ j) :
    Moves src i (Round.Meets (fun _ k => j < k) Any) (hashesRound src hashes j) := by
  obtain ⟨rest, h⟩ := h
  refine .step (peekByte_run h) ?_
  split
  · rename_i hhash
    refine (bumpByte_moves h (by decide) hhash hi).bind fun _ k hk hb hlt => ?_
    exact .ok hk hb hlt
  · exact .ok hi h.boundary trivial

theorem parseRawString_moves (h : OnBoundary src i) : Moves src i (Past i) (parseRawString src i) := by
  obtain ⟨rest, h⟩ := h
  refine .step (peekByte_run h) ?_
  split
  · exact .fail le_rfl h.boundary
  · have hscan : Moves src i Any (loop (hashesRound src) src.rounds 0 i) :=
      Moves.scan (fun hashes _ hl hbl => hashesRound_moves hashes hbl hl) 0 le_rfl h.boundary
    refine hscan.bind fun hashes k hk hb _ => ?_
    obtain ⟨rest', h'⟩ := hb
    refine .step (startsWith_run h' _) ?_
    split
    · exact (parseMultilineString_moves hashes true h'.boundary hk).mono le_rfl fun _ l _ _ hl => Nat.lt_of_le_of_lt hk hl
    · refine .step (peekByte_run h') ?_
      split
      · exact .fail hk h'.boundary
      · rename_i hquote
        refine (bumpByte_moves h' (by decide) (not_not.mp hquote) hk).bind fun _ l hl hb hkl => ?_
        refine .step (get_run l) ?_
        cases hfind : findCloser src l 1 hashes with
        | none => exact .fail hl hb
        | some found =>
          obtain ⟨closeAt, endIndex⟩ := found
          obtain ⟨hle, hlt, ⟨post, hclose⟩, hend⟩ := findCloser_spec (by decide) hb.le hfind
          obtain ⟨after, hafter⟩ := hb
          obtain ⟨content, -, -, hslice⟩ := inputSlice_run hafter hclose hle
          refine .step (hslice l) ?_
          split
          · exact .fail hl hafter.boundary
          · split
            · exact .fail hl hafter.boundary
            · exact .ok (by omega) hend (show i < endIndex by omega)

theorem parseStringValue_moves (h : OnBoundary src i) : Moves src i (Past i) (parseStringValue src i) := by
  obtain ⟨rest, h⟩ := h
  refine .step (peekByte_run h) ?_
  cases (encode rest).head? with
  | none => exact .fail le_rfl h.boundary
  | some b => grind [parseQuotedString_moves, h.boundary, parseRawString_moves, parseIdentifierString_moves]

end TensorDE.Kdl
