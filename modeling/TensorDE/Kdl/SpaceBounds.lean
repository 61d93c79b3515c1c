import TensorDE.Kdl.Place

namespace TensorDE.Kdl

open Effect Utf8 List

variable {src : Source} {i j : Nat} {rest : Str} {c : Char}

/-- What an observing step leaves: nothing. -/
abbrev Any {α : Type} (_ : α) (_ : Nat) : Prop := True

/-- The index has moved on from `i`. -/
abbrev Past (i : Nat) {α : Type} (_ : α) (j : Nat) : Prop := i < j

theorem At.lt_tail (h : At src i (c :: rest)) : i < i + c.utf8Size ∧ OnBoundary src (i + c.utf8Size) := by
  have := c.utf8Size_pos
  exact ⟨by omega, h.tail.boundary⟩

theorem At.skip {s : Str} (h : At src i rest) (hs : s.isPrefixOf rest = true) : OnBoundary src (i + size s) := by
  obtain ⟨post, rfl⟩ := isPrefixOf_iff_prefix.mp hs
  exact (h.append _).boundary

theorem head_of_byte (hc : c.toNat < 128) (hbyte : (encode rest).head? = some c.toUInt8) :
    ∃ post, rest = c :: post := by
  have hb : c.toUInt8.toNat = c.toNat := by
    have : c.toUInt8 = UInt8.ofNat c.toNat := rfl
    rw [this, UInt8.toNat_ofNat', Nat.mod_eq_of_lt (by omega)]
  rw [head?_encode (by omega), hb, Char.ofNat_toNat] at hbyte
  exact head?_eq_some_iff.mp hbyte

theorem padding_cases (src : Source) : src.padding = 0 ∨ 8 ≤ src.padding := by
  unfold Source.padding paddingBytes
  split <;> simp

theorem skipAsciiHorizontalWs_at (h : At src i rest) :
    skipAsciiHorizontalWs src.bytes i src.logicalEnd = i + blankRun (lastWord src.padding) (encode rest) := by
  grind [h.le, Source.bytes, Source.logicalEnd, size, skipAsciiHorizontalWs_eq, padding_cases, h.drop]

theorem skipAsciiHorizontalWs_boundary (h : At src i rest) : i ≤ skipAsciiHorizontalWs src.bytes i src.logicalEnd ∧
      OnBoundary src (skipAsciiHorizontalWs src.bytes i src.logicalEnd) := by
  rw [skipAsciiHorizontalWs_at h]
  obtain ⟨hle, hascii⟩ := blankRun_ascii src.padding (encode rest)
  obtain ⟨pre, post, rfl, hsize⟩ := split_ascii hle hascii
  refine ⟨by omega, ?_⟩
  rw [← hsize]
  exact (h.append _).boundary

theorem bumpByteIf_moves {condition : Bool} (h : At src j rest) (hc : c.toNat < 128)
    (hbyte : condition = true → (encode rest).head? = some c.toUInt8) (hi : i ≤ j) :
    Moves src i (fun _ k => j ≤ k) (bumpByteIf src condition j) := by
  cases condition with
  | false => exact .ok hi h.boundary le_rfl
  | true =>
    obtain ⟨post, rfl⟩ := head_of_byte hc (hbyte rfl)
    have htail := h.tail
    rw [utf8Size_ascii hc] at htail
    rw [bumpByteIf, if_pos rfl, bumpByte_run h hc]
    exact .ok (by omega) htail.boundary (Nat.le_succ j)

theorem consumeNewline_moves (h : At src i rest) :
    Moves src i (fun b j => (b = true → i < j) ∧ (b = rest.head?.any isNewlineChar)) (consumeNewline src i) := by
  rw [consumeNewline, bind_run, peekChar_run h]
  cases rest with
  | nil => exact .ok le_rfl h.boundary (by simp)
  | cons c rest =>
    have hlt := h.lt_tail
    dsimp only [head?_cons]
    split
    · rename_i hcr
      have hnl : isNewlineChar c = true := by rw [hcr]; decide
      refine .step (bumpChar_cons h) (.step (peekByte_run h.tail) ?_)
      refine Moves.bind (bumpByteIf_moves h.tail (by decide : '\n'.toNat < 128) (by simp) (by omega)) ?_
      intro _ k hk hb hle
      exact .ok hk hb ⟨fun _ => Nat.lt_of_lt_of_le hlt.1 hle, by simp [hnl]⟩
    · split
      · rename_i hnl
        simp only [bind_run, bumpChar_cons h]
        exact .ok (by omega) hlt.2 ⟨fun _ => hlt.1, by simp [hnl]⟩
      · rename_i hnl
        exact .ok le_rfl h.boundary (by simp [hnl])

theorem lineCommentRound_moves (h : At src j rest) (hi : i ≤ j) :
    Moves src i (Round.Meets (fun _ k => j < k) Any) (lineCommentRound src () j) := by
  rw [lineCommentRound, bind_run, peekChar_run h]
  cases rest with
  | nil => exact .ok hi h.boundary trivial
  | cons c rest =>
    have hlt := h.lt_tail
    dsimp only [head?_cons]
    split
    · refine Moves.bind ((consumeNewline_moves h).mono hi fun _ _ _ _ h => h) fun b k hk hb _ => ?_
      exact .ok hk hb trivial
    · simp only [bind_run, bumpChar_cons h]
      exact .ok (by omega) hlt.2 hlt.1

def ahead (src : Source) (i : Nat) : Nat := src.logicalEnd - i

theorem ahead_lt (h : OnBoundary src j) (hlt : i < j) : ahead src j < ahead src i := by
  have := h.le
  unfold ahead
  omega

theorem ahead_rounds (src : Source) (i : Nat) : ahead src i < src.rounds := by
  unfold ahead Source.rounds
  omega

theorem Moves.scan {α β : Type} {round : α → Lex (Round α β)} {R : β → Nat → Prop}
    (hround : ∀ a k, i ≤ k → OnBoundary src k → Moves src i (Round.Meets (fun _ l => k < l) R) (round a k))
    (a : α) (hi : i ≤ j) (hj : OnBoundary src j) : Moves src i R (Effect.loop round src.rounds a j) := by
  refine Moves.loop (P := fun _ _ => True) (fun _ k => ahead src k) (fun a k hk hb _ => ?_) hi hj trivial
    (ahead_rounds src j)
  refine (hround a k hk hb).mono le_rfl fun r l hl hbl hr => ?_
  cases r with
  | again a' => exact ⟨trivial, ahead_lt hbl hr⟩
  | done b => exact hr

theorem skipLineComment_moves (h : At src i rest) (hs : ['/', '/'].isPrefixOf rest = true) :
    Moves src i (Past i) (skipLineComment src i) := by
  have hb := h.skip hs
  rw [skipLineComment, bind_run, advance, modify_run]
  have hscan : Moves src (i + 2) Any (loop (lineCommentRound src) src.rounds () (i + 2)) :=
    Moves.scan (fun _ _ hk hb => hb.elim fun _ hb => lineCommentRound_moves hb hk) () le_rfl hb
  grind [hscan.mono]

theorem blockCommentRound_moves (depth : Int) (h : At src j rest) (hi : i ≤ j) :
    Moves src i (Round.Meets (fun _ k => j < k) Any) (blockCommentRound src depth j) := by
  rw [blockCommentRound]
  split
  · exact .ok hi h.boundary trivial
  · simp only [bind_run, eof_run h]
    split
    · exact .fail hi h.boundary
    · rename_i hne
      simp only [bind_run, startsWith_run h]
      split
      · rename_i hs
        have hb := h.skip hs
        exact .ok (hi.trans (Nat.le_add_right j _)) hb (Nat.lt_add_of_pos_right (by decide : 0 < 2))
      · simp only [bind_run, startsWith_run h]
        split
        · rename_i hs
          have hb := h.skip hs
          exact .ok (hi.trans (Nat.le_add_right j _)) hb (Nat.lt_add_of_pos_right (by decide : 0 < 2))
        · cases rest with
          | nil => simp at hne
          | cons c rest =>
            have hlt := h.lt_tail
            simp only [bind_run, bumpChar_cons h]
            exact .ok (by omega) hlt.2 hlt.1

theorem skipBlockComment_moves (h : At src i rest) (hs : ['/', '*'].isPrefixOf rest = true) :
    Moves src i (Past i) (skipBlockComment src i) := by
  have hb := h.skip hs
  rw [skipBlockComment, bind_run, advance, modify_run]
  have hscan : Moves src (i + 2) Any (loop (blockCommentRound src) src.rounds 1 (i + 2)) :=
    Moves.scan (fun depth _ hk hb => hb.elim fun _ hb => blockCommentRound_moves depth hb hk) 1 le_rfl hb
  grind [hscan.mono]

theorem wsOnlyRound_moves (h : At src j rest) (hi : i ≤ j) :
    Moves src i (Round.Meets (fun _ k => j < k) Any) (wsOnlyRound src () j) := by
  obtain ⟨hle, rest', h'⟩ := skipAsciiHorizontalWs_boundary h
  simp only [wsOnlyRound, bind_run, get_run, set_run, peekChar_run h']
  split
  · rename_i hspace
    cases rest' with
    | nil => simp at hspace
    | cons c rest' =>
      have hlt := h'.lt_tail
      simp only [bumpChar_cons h', bind_run]
      exact .ok (by omega) hlt.2 (show _ < _ by omega)
  · simp only [bind_run, startsWith_run h']
    split
    · rename_i hs
      refine Moves.bind ((skipBlockComment_moves h' hs).mono (hi.trans hle) fun _ _ _ _ h => h) fun _ k hk hb hlt => ?_
      exact .ok hk hb (hle.trans_lt hlt)
    · simp only [bind_run, get_run]
      split
      · exact .ok (hi.trans hle) h'.boundary trivial
      · rename_i hne
        exact .ok (hi.trans hle) h'.boundary (lt_of_le_of_ne hle (Ne.symm hne))

theorem skipWsOnly_moves (h : OnBoundary src i) : Moves src i Any (skipWsOnly src i) :=
  Moves.scan (fun _ _ hk hb => hb.elim fun _ hb => wsOnlyRound_moves hb hk) () le_rfl h

theorem skipEscline_moves (h : OnBoundary src i) : Moves src i (Past i) (skipEscline src i) := by
  obtain ⟨rest, h⟩ := h
  simp only [skipEscline, bind_run, peekByte_run h]
  split
  · exact .fail le_rfl h.boundary
  · rename_i hbyte
    obtain ⟨post, rfl⟩ := head_of_byte (by decide) (not_not.mp hbyte)
    refine .step (bumpByte_run h (by decide)) ?_
    have htail : At src (i + 1) post := h.tail
    have hws : Moves src i (Past i) (skipWsOnly src (i + 1)) :=
      (skipWsOnly_moves htail.boundary).mono (by omega) fun _ k hk _ _ => hk
    refine hws.bind fun _ k hk hb hlt => ?_
    obtain ⟨rest', h'⟩ := hb
    refine .step (startsWith_run h' _) ?_
    split
    · rename_i hs
      exact (skipLineComment_moves h' hs).mono hk fun _ l _ _ hl => hlt.trans hl
    · refine .step (eof_run h') ?_
      split
      · exact .ok hk h'.boundary hlt
      · refine Moves.bind ((consumeNewline_moves h').mono hk fun _ _ hl _ h => And.intro hl h) fun b l hl hb hbl => ?_
        split
        · exact .ok hl hb (show i < l by omega)
        · exact .fail hl hb

theorem nodeSpaceRound_moves (h : OnBoundary src j) (hi : i ≤ j) :
    Moves src i (Round.Meets (fun _ k => j < k) Any) (nodeSpaceRound src () j) := by
  rw [nodeSpaceRound, bind_run, get_run]
  refine Moves.bind ((skipWsOnly_moves h).mono hi fun _ k hk _ _ => hk) fun _ k hk hb hjk => ?_
  obtain ⟨rest, hat⟩ := hb
  simp only [bind_run, peekByte_run hat]
  split
  · refine Moves.bind ((skipEscline_moves hat.boundary).mono hk fun _ _ _ _ h => h) fun _ l hl hb hkl => ?_
    exact .ok hl hb (show j < l by omega)
  · simp only [bind_run, get_run]
    split
    · exact .ok hk hat.boundary trivial
    · exact .ok hk hat.boundary (show j < k by omega)

theorem skipNodeSpaceCounted_moves (h : OnBoundary src i) :
    Moves src i (fun b j => b = true ↔ i < j) (skipNodeSpaceCounted src i) := by
  rw [skipNodeSpaceCounted, bind_run, get_run]
  refine Moves.bind (Moves.scan (fun _ _ hk hb => nodeSpaceRound_moves hb hk) () le_rfl h) fun _ k hk hb _ => ?_
  exact .ok hk hb (by simp)

theorem skipNodeSpace_moves (h : OnBoundary src i) : Moves src i Any (skipNodeSpace src i) :=
  Moves.bind (skipNodeSpaceCounted_moves h) fun _ _ hk hb _ => .ok hk hb trivial

theorem lineSpaceRound_moves (h : OnBoundary src j) (hi : i ≤ j) :
    Moves src i (Round.Meets (fun _ k => j < k) Any) (lineSpaceRound src () j) := by
  rw [lineSpaceRound, bind_run, get_run]
  refine Moves.bind ((skipWsOnly_moves h).mono hi fun _ k hk _ _ => hk) fun _ k hk hb hjk => ?_
  obtain ⟨rest, hat⟩ := hb
  simp only [bind_run, startsWith_run hat]
  split
  · rename_i hs
    refine Moves.bind ((skipLineComment_moves hat hs).mono hk fun _ _ _ _ h => h) fun _ l hl hb hkl => ?_
    exact .ok hl hb (show j < l by omega)
  · refine Moves.bind ((consumeNewline_moves hat).mono hk fun _ _ hl _ h => And.intro hl h) fun b l hl hb hbl => ?_
    split
    · rename_i hnl
      exact .ok hl hb (show j < l by have := hbl.2.1 hnl; omega)
    · obtain ⟨rest', hat'⟩ := hb
      simp only [bind_run, peekByte_run hat']
      split
      · refine Moves.bind ((skipEscline_moves hat'.boundary).mono hl fun _ _ _ _ h => h) fun _ m hm hb hlm => ?_
        exact .ok hm hb (show j < m by omega)
      · simp only [bind_run, get_run]
        split
        · exact .ok hl hat'.boundary trivial
        · exact .ok hl hat'.boundary (show j < l by omega)

theorem skipLineSpace_moves (h : OnBoundary src i) : Moves src i Any (skipLineSpace src i) :=
  Moves.scan (fun _ _ hk hb => lineSpaceRound_moves hb hk) () le_rfl h

end TensorDE.Kdl
