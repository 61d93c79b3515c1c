import Mathlib.Data.List.Induction
import TensorDE.Dbus.Auth

namespace TensorDE.Dbus

open Effect Bytes List

/-- Hexadecimal digits in upper case. -/
def upper (byte : UInt8) : UInt8 := if 97 ≤ byte ∧ byte ≤ 102 then byte - 32 else byte

/-- A decimal text of the uid: its digits, perhaps after zeros and a plus sign. -/
def SpellsUid (uid : Nat) (text : Bytes) : Prop :=
  ∃ sign zeros, (sign = [] ∨ sign = [43]) ∧ text = sign ++ List.replicate zeros 48 ++ decimalText uid

/-- The hexadecimal form, in either case, of a decimal text of the uid. -/
def NamesUid (uid : UInt32) (argument : Bytes) : Prop :=
  ∃ text, argument.map upper = pushHex [] text ∧ SpellsUid uid.toNat text

theorem byte_spec : ∀ digit : UInt8,
    (hex digit).all (fun value => value < 16 ∧ hexDigits.getD value.toNat 0 = upper digit) = true ∧
      (isDigit digit = true → digit.toNat - 48 < 10 ∧ decimalText (digit.toNat - 48) = [digit]) :=
  forall_byte (by decide +kernel)

variable (digit : UInt8)

theorem hex_all : (hex digit).all (fun value => value < 16 ∧ hexDigits.getD value.toNat 0 = upper digit) = true :=
  (byte_spec digit).1

theorem hex_spec : ∀ digit : UInt8, ∀ value ∈ hex digit, value < 16 ∧ hexDigits.getD value.toNat 0 = upper digit := by
  grind [hex_all, hex]

theorem nibbles : ∀ high low : Fin 16, ((UInt8.ofNat high <<< 4 ||| UInt8.ofNat low) >>> 4) = UInt8.ofNat high ∧
    ((UInt8.ofNat high <<< 4 ||| UInt8.ofNat low) &&& 15) = UInt8.ofNat low := by
  decide +kernel

variable {argument text : Bytes}

theorem hexPairs_spec (hlen : argument.length % 2 = 0) (h : hexPairs argument = some text) :
    argument.map upper = pushHex [] text := by
  induction argument using hexPairs.induct generalizing text with
  | case1 high low rest ih =>
    simp only [hexPairs, Option.bind_eq_bind, Option.bind_eq_some_iff, Option.pure_def, Option.some.injEq] at h
    obtain ⟨x, hx, y, hy, decoded, hdecoded, rfl⟩ := h
    obtain ⟨hx16, hxd⟩ := hex_spec high x hx
    obtain ⟨hy16, hyd⟩ := hex_spec low y hy
    have hnib := nibbles ⟨x.toNat, hx16⟩ ⟨y.toNat, hy16⟩
    grind [UInt8.ofNat_toNat, pushHex]
  | case2 argument hne =>
    cases argument with
    | nil =>
      cases h
      rfl
    | cons a rest =>
      cases rest with
      | nil => simp at hlen
      | cons b rest => exact absurd rfl (hne a b rest)

variable (digits : Bytes)

theorem decimalValue_snoc : decimalValue (digits ++ [digit]) = 10 * decimalValue digits + (digit.toNat - 48) := by
  simp [decimalValue]

theorem digit_text : ∀ digit : UInt8, isDigit digit = true →
    digit.toNat - 48 < 10 ∧ decimalText (digit.toNat - 48) = [digit] :=
  fun digit => (byte_spec digit).2

theorem decimalText_snoc {n r : Nat} (hn : 0 < n) (hr : r < 10) :
    decimalText (10 * n + r) = decimalText n ++ decimalText r := by
  simp only [decimalText]
  rw [← Nat.toDigits_append_toDigits (by decide) hn hr, map_append]

theorem digits_spec (hne : digits ≠ []) (hall : digits.all isDigit = true) :
    ∃ zeros, digits = replicate zeros 48 ++ decimalText (decimalValue digits) := by
  induction digits using reverseRecOn with
  | nil => exact absurd rfl hne
  | append_singleton digits digit ih =>
    rw [all_append, Bool.and_eq_true, all_cons, all_nil, Bool.and_true] at hall
    obtain ⟨hlt, htext⟩ := digit_text digit hall.2
    rw [decimalValue_snoc]
    by_cases hempty : digits = []
    · subst hempty
      exact ⟨0, by simpa [decimalValue] using htext.symm⟩
    obtain ⟨zeros, hz⟩ := ih hempty hall.1
    -- a value of zero before the last digit means that only zeros stand there
    obtain hzero | hpos := Nat.eq_zero_or_pos (decimalValue digits)
    · refine ⟨zeros + 1, ?_⟩
      rw [hzero] at hz ⊢
      rw [Nat.mul_zero, Nat.zero_add, htext, replicate_succ', hz]
      rfl
    grind -linarith [decimalText_snoc]

theorem dropPlus_cases (text : Bytes) : text = dropPlus text ∨ text = 43 :: dropPlus text := by
  unfold dropPlus
  split
  · exact .inr rfl
  · exact .inl rfl

variable {uid : UInt32}

theorem parseU32_spec (h : parseU32 text = some uid) : SpellsUid uid.toNat text := by
  unfold parseU32 at h
  rw [Option.ite_none_right_eq_some] at h
  obtain ⟨⟨hne, hall, hlt⟩, heq⟩ := h
  have hvalue : uid.toNat = decimalValue (dropPlus text) := by
    rw [← Option.some.inj heq, UInt32.toNat_ofNat', Nat.mod_eq_of_lt hlt]
  obtain ⟨zeros, hz⟩ := digits_spec (dropPlus text) hne hall
  rw [← hvalue] at hz
  obtain ht | ht := dropPlus_cases text
  · exact ⟨[], zeros, .inl rfl, ht.trans hz⟩
  · exact ⟨[43], zeros, .inr rfl, by rw [append_assoc, ← hz]; exact ht⟩

theorem externalUid_spec (h : externalUid argument = some uid) : NamesUid uid argument := by
  unfold externalUid at h
  split at h
  · cases h
  · simp only [Option.bind_eq_bind, Option.bind_eq_some_iff] at h
    obtain ⟨decoded, hdecoded, hparse⟩ := h
    rw [Option.ite_none_right_eq_some] at hparse
    exact ⟨decoded, hexPairs_spec (by omega) hdecoded, parseU32_spec hparse.2⟩

/-- The lines of a byte string that are complete; the bytes already seen of the
first one stand reversed in front. -/
def linesFrom : Bytes → Bytes → List Bytes
  | _, [] => []
  | seen, 13 :: 10 :: rest => seen.reverse :: linesFrom [] rest
  | seen, byte :: rest => linesFrom (byte :: seen) rest

def linesOf (bytes : Bytes) : List Bytes := linesFrom [] bytes

variable {bytes : Bytes} {stop : Nat}

section

variable (h : findCrlf bytes = some stop)
include h

theorem findCrlf_append (more : Bytes) : findCrlf (bytes ++ more) = some stop := by
  induction bytes using findCrlf.induct generalizing stop with
  | case1 => cases h
  | case2 rest => exact h
  | case3 byte rest hne ih =>
    rw [findCrlf.eq_3 _ _ hne, Option.map_eq_some_iff] at h
    obtain ⟨at', hrest, rfl⟩ := h
    have hne' : ∀ tail, byte = 13 → rest ++ more = 10 :: tail → False := by
      intro tail hbyte heq
      cases rest with
      | nil => cases hrest
      | cons next rest =>
        obtain ⟨rfl, -⟩ := List.cons.inj heq
        exact hne rest hbyte rfl
    rw [cons_append, findCrlf.eq_3 _ _ hne', ih hrest]
    rfl

theorem linesFrom_of_findCrlf (seen : Bytes) : bytes = bytes.take stop ++ crlf ++ bytes.drop (stop + 2) ∧
      linesFrom seen bytes = (seen.reverse ++ bytes.take stop) :: linesOf (bytes.drop (stop + 2)) := by
  induction bytes using findCrlf.induct generalizing stop seen with
  | case1 => cases h
  | case2 rest =>
    cases h
    exact ⟨rfl, by simp [linesFrom, linesOf]⟩
  | case3 byte rest hne ih =>
    rw [findCrlf.eq_3 _ _ hne, Option.map_eq_some_iff] at h
    obtain ⟨stop, hrest, rfl⟩ := h
    obtain ⟨hsplit, hlines⟩ := ih hrest (byte :: seen)
    grind [linesFrom.eq_3]

theorem linesOf_cons : linesOf bytes = bytes.take stop :: linesOf (bytes.drop (stop + 2)) :=
  (linesFrom_of_findCrlf h []).2

end

/-- What is left to read, in the reader and on the stream. -/
def LineReader.rest (reader : LineReader) (channel : Channel) : Bytes := reader.buffered ++ channel.bytes

variable {reader : LineReader} {channel channel' : Channel} {found : Bytes × LineReader}

/-- A line that was read stood in front of what is left, and nothing else is lost. -/
theorem readLineLoop_ok {capacity rounds : Nat} (h : readLineLoop capacity rounds reader channel = .ok found channel') :
    findCrlf (reader.rest channel) = some found.1.length ∧
      reader.rest channel = found.1 ++ crlf ++ found.2.rest channel' ∧
      reader.unixFds ++ fdsOf channel.cells = found.2.unixFds ++ fdsOf channel'.cells := by
  induction rounds generalizing reader channel with
  | zero => cases h
  | succ rounds ih =>
    rw [readLineLoop] at h
    cases hfind : findCrlf reader.buffered with
    | some stop =>
      by_cases hlong : stop > maxAuthLine
      · simp [takeLine, hfind, hlong] at h
      simp only [takeLine, hfind, if_neg hlong, pure_run] at h
      obtain ⟨hsplit, -⟩ := linesFrom_of_findCrlf hfind []
      grind [crlf, findCrlf_append, LineReader.rest]
    | none =>
      by_cases hlong : reader.buffered.length > maxAuthLine
      · simp [takeLine, hfind, hlong] at h
      simp only [takeLine, hfind, if_neg hlong] at h
      obtain ⟨got, middle, hrecv, hnext⟩ := bind_eq_ok.mp h
      by_cases hempty : got.1 = []
      · simp [hempty] at hnext
      grind [receive_eq_ok, LineReader.rest, Channel.bytes, bytesOf_append, fdsOf_append]

theorem linesOf_append {line bytes rest : Bytes} (h : bytes = line ++ crlf ++ rest)
    (hfind : findCrlf bytes = some line.length) : linesOf bytes = line :: linesOf rest := by
  rw [linesOf_cons hfind, h]
  simp [crlf]

theorem readLine_ok {capacity : Nat} (h : readLine capacity reader channel = .ok found channel') :
    linesOf (reader.rest channel) = found.1 :: linesOf (found.2.rest channel') := by
  obtain ⟨hfirst, hsplit, -⟩ := readLineLoop_ok h
  exact linesOf_append hsplit hfirst

/-- The form of a line that answers a challenge. -/
def IsData (line : Bytes) : Prop := line = ofAscii "DATA" ∨ dataArgument <+: line

def Identifies (uid : UInt32) : List Bytes → Prop
  | [line] => ∃ argument, line = authExternalArgument ++ argument ∧ NamesUid uid argument
  | [line, answer] => line = authExternal ∧ (answer = ofAscii "DATA" ∨ answer = dataArgument ∨
      ∃ argument, answer = dataArgument ++ argument ∧ NamesUid uid argument)
  | _ => False

/-- Commands up to the `BEGIN` that ends the handshake, with an identification
among them that no `CANCEL` takes back. -/
def Identified (uid : UInt32) (lines : List Bytes) : Prop :=
  ∃ before identity after, lines = before ++ identity ++ after ++ [begin] ∧ Identifies uid identity ∧ cancel ∉ after

/-- The lines by which the client answers the server's challenges, in a handshake
that goes on from the given state. -/
def challengeAnswers (uid : UInt32) : Bool → List Bytes → List Bytes
  | _, [] => []
  | true, line :: rest => if line = begin then [] else challengeAnswers uid (line ≠ cancel) rest
  | false, line :: rest =>
    if line = authExternal then
      match rest with
      | [] => []
      | answer :: rest => answer :: challengeAnswers uid (acceptsChallenge uid answer) rest
    else challengeAnswers uid ((stripPrefix authExternalArgument line).bind externalUid = some uid) rest

variable {line : Bytes}

theorem challengeAnswers_other (h : line ≠ authExternal) (rest : List Bytes) :
    challengeAnswers uid false (line :: rest) =
      challengeAnswers uid ((stripPrefix authExternalArgument line).bind externalUid = some uid) rest := by
  cases rest <;> simp [challengeAnswers, h]

theorem stripPrefix_eq {start line argument : Bytes} (h : stripPrefix start line = some argument) :
    line = start ++ argument := by
  unfold stripPrefix at h
  split at h
  · rename_i hp
    cases h
    exact (prefix_iff_eq_append.mp hp).symm
  · cases h

/-- What is left of the client's lines; the NUL byte in front of the first is not part of it. -/
def Session.rest (session : Session) (channel : Channel) : Bytes :=
  if session.first then (session.reader.rest channel).tail else session.reader.rest channel

theorem mapErr_eq_ok {α : Type} {f : Error → Error} {x : Op Channel Error α} {a : α}
    (h : mapErr f x channel = .ok a channel') : x channel = .ok a channel' := by
  grind [mapErr]

variable {session : Session}

theorem nextCommand_ok {index : Nat} {command : Bytes × Session}
    (h : nextCommand index session channel = .ok command channel') :
    linesOf (session.rest channel) = command.1 :: linesOf (command.2.rest channel') ∧
      command.2.first = false ∧ command.2.authenticated = session.authenticated ∧
      (session.first = true → (session.reader.rest channel).head? = some 0) := by
  obtain ⟨⟨text, reader⟩, middle, hread, hnext⟩ := bind_eq_ok.mp h
  obtain ⟨hfind, hsplit, -⟩ := readLineLoop_ok (mapErr_eq_ok hread)
  cases hfirst : session.first with
  | false =>
    simp only [hfirst, Bool.false_eq_true, if_false, pure_run] at hnext
    grind [Session.rest, linesOf_append]
  | true =>
    simp only [hfirst, if_true] at hnext
    split at hnext
    · rename_i line
      cases hnext
      -- the NUL byte is not part of a line end, so the rest has its first line end one byte earlier
      have hrest : session.reader.rest channel = 0 :: (line ++ crlf ++ reader.rest channel') := by simpa using hsplit
      have hfind' : findCrlf (line ++ crlf ++ reader.rest channel') = some line.length := by
        rw [hrest, findCrlf.eq_3 _ _ (by simp)] at hfind
        simpa using hfind
      grind [Session.rest, linesOf_append]
    · cases hnext

theorem writeAll_ok {buffer : Bytes} (h : writeAll buffer channel = .ok () channel') :
    channel'.incoming = channel.incoming := by
  cases hleft : channel.writesLeft with
  | zero => simp [writeAll, hleft] at h
  | succ left =>
    simp only [writeAll, bind_run, get_run, hleft] at h
    cases h
    rfl

variable {session' : Session}

theorem rest_congr (hreader : session'.reader = session.reader)
    (hfirst : session'.first = session.first) (hchannel : channel'.incoming = channel.incoming) :
    session'.rest channel' = session.rest channel := by
  grind [Session.rest, LineReader.rest, Channel.bytes, Channel.cells]

theorem rest_of_not_first (session : Session) (h : session.first = false) (channel : Channel) :
    session.rest channel = session.reader.rest channel := by
  simp [Session.rest, h]

variable {guid : Guid}

theorem answerIdentity_ok {accepted : Bool} (hstate : session.authenticated = false)
    (h : answerIdentity guid session accepted channel = .ok session' channel') :
    session'.authenticated = accepted ∧ session'.rest channel' = session.rest channel ∧
      session'.first = session.first := by
  cases accepted with
  | true =>
    obtain ⟨_, middle, hwrite, hnext⟩ := bind_eq_ok.mp h
    cases hnext
    grind [rest_congr, writeAll_ok]
  | false =>
    obtain ⟨_, middle, hwrite, hnext⟩ := bind_eq_ok.mp h
    cases hnext
    grind [rest_congr, writeAll_ok]

/-- A command before authentication: it is an identification or a refusal, and a
challenge also takes the next line. -/
theorem authenticate_ok (hstate : session.authenticated = false) (hfirst : session.first = false)
    (h : authenticate guid uid session line channel = .ok session' channel') : session'.first = false ∧
      ((line ≠ authExternal ∧ session'.rest channel' = session.rest channel ∧
          session'.authenticated = decide ((stripPrefix authExternalArgument line).bind externalUid = some uid)) ∨
        (line = authExternal ∧ ∃ answer, linesOf (session.rest channel) = answer :: linesOf (session'.rest channel') ∧
          session'.authenticated = acceptsChallenge uid answer)) := by
  cases hstrip : stripPrefix authExternalArgument line with
  | some argument =>
    simp only [authenticate, hstrip] at h
    obtain ⟨hauth, hrest, hf⟩ := answerIdentity_ok hstate h
    refine ⟨hf.trans hfirst, .inl ⟨?_, hrest, by simpa using hauth⟩⟩
    rintro rfl
    revert hstrip
    have hnone : stripPrefix authExternalArgument authExternal = none := by decide
    simp [hnone]
  | none =>
    simp only [authenticate, hstrip] at h
    by_cases hline : line = authExternal
    · rw [if_pos hline] at h
      obtain ⟨_, middle, hwrite, hnext⟩ := bind_eq_ok.mp h
      obtain ⟨answer, middle', hread, hanswer⟩ := bind_eq_ok.mp hnext
      obtain ⟨hauth, hrest, hf⟩ := answerIdentity_ok (by exact hstate) hanswer
      refine ⟨hf.trans hfirst, .inr ⟨hline, answer.1, ?_, hauth⟩⟩
      have hsame : session.rest middle = session.rest channel := rest_congr rfl rfl (writeAll_ok hwrite)
      grind -linarith [rest_of_not_first, readLine_ok]
    · rw [if_neg hline] at h
      obtain ⟨_, middle, hwrite, hnext⟩ := bind_eq_ok.mp h
      cases hnext
      grind [rest_congr, writeAll_ok]

theorem afterAuthentication_ok (hstate : session.authenticated = true) (h : afterAuthentication session line channel = .ok session' channel') :
    session'.first = session.first ∧ session'.rest channel' = session.rest channel ∧
      session'.authenticated = decide (line ≠ cancel) := by
  unfold afterAuthentication at h
  by_cases hfd : line = negotiateUnixFd
  · rw [if_pos hfd] at h
    obtain ⟨_, middle, hwrite, hnext⟩ := bind_eq_ok.mp h
    cases hnext
    have hne : negotiateUnixFd ≠ cancel := by decide
    grind [rest_congr, writeAll_ok]
  rw [if_neg hfd] at h
  by_cases hcancel : line = cancel
  · rw [if_pos hcancel] at h
    obtain ⟨_, middle, hwrite, hnext⟩ := bind_eq_ok.mp h
    cases hnext
    grind [rest_congr, writeAll_ok]
  · rw [if_neg hcancel] at h
    obtain ⟨_, middle, hwrite, hnext⟩ := bind_eq_ok.mp h
    cases hnext
    grind [rest_congr, writeAll_ok]

/-- The lines that a handshake still needs: an authenticated client may go
straight to `BEGIN`. -/
def Completes (uid : UInt32) (authenticated : Bool) (lines : List Bytes) : Prop :=
  (authenticated = true ∧ ∃ after, lines = after ++ [begin] ∧ cancel ∉ after) ∨ Identified uid lines

theorem Identified.cons {uid : UInt32} {lines : List Bytes} (h : Identified uid lines) (line : Bytes) :
    Identified uid (line :: lines) := by
  obtain ⟨before, identity, after, rfl, hid, hcancel⟩ := h
  exact ⟨line :: before, identity, after, by simp, hid, hcancel⟩

variable {lines : List Bytes}

theorem Identified.of_completes (identity : List Bytes) {authenticated : Bool}
    (hid : authenticated = true → Identifies uid identity) (h : Completes uid authenticated lines) :
    Identified uid (identity ++ lines) := by
  obtain ⟨hauth, after, rfl, hcancel⟩ | h := h
  · exact ⟨[], identity, after, by simp, hid hauth, hcancel⟩
  · induction identity with
    | nil => exact h
    | cons line identity ih =>
      obtain ⟨before, identity', after, rfl, hid', hcancel⟩ := h
      exact ⟨line :: identity ++ before, identity', after, by simp, hid', hcancel⟩

theorem identifies_argument (h : (stripPrefix authExternalArgument line).bind externalUid = some uid) : Identifies uid [line] := by
  obtain ⟨argument, hstrip, huid⟩ := Option.bind_eq_some_iff.mp h
  exact ⟨argument, stripPrefix_eq hstrip, externalUid_spec huid⟩

theorem identifies_answer {answer : Bytes} (hdata : IsData answer)
    (h : acceptsChallenge uid answer = true) : Identifies uid [authExternal, answer] := by
  refine ⟨rfl, ?_⟩
  obtain hbare | hprefix := hdata
  · exact .inl hbare
  · have hstrip : stripPrefix dataArgument answer = some (answer.drop dataArgument.length) := by
      simp [stripPrefix, hprefix]
    have hanswer := stripPrefix_eq hstrip
    grind [acceptsChallenge, challengeArgument, externalUid_spec]

/-- A successful run of the loop, by induction on the commands that are left. -/
theorem serverLoop_sound {left : Nat}
    {result : Authenticated} (h : serverLoop guid uid left session channel = .ok result channel')
    (hdata : ∀ answer ∈ challengeAnswers uid session.authenticated (linesOf (session.rest channel)), IsData answer) :
    (session.first = true → (session.reader.rest channel).head? = some 0) ∧
      ∃ lines, linesOf (session.rest channel) = lines ++ linesOf (result.buffered ++ channel'.bytes) ∧
        Completes uid session.authenticated lines := by
  induction left generalizing session channel with
  | zero => cases h
  | succ left ih =>
    obtain ⟨⟨line, next⟩, middle, hcommand, hrun⟩ := bind_eq_ok.mp h
    obtain ⟨hlines, hfirst, hauth, hnul⟩ := nextCommand_ok hcommand
    refine ⟨hnul, ?_⟩
    simp only at hrun hlines hfirst hauth
    rw [hlines] at hdata ⊢
    cases hstate : session.authenticated with
    | false =>
      rw [hstate] at hauth hdata
      rw [if_pos hauth] at hrun
      obtain ⟨session', middle', hstep, hrest⟩ := bind_eq_ok.mp hrun
      obtain ⟨hfirst', hcase⟩ := authenticate_ok hauth hfirst hstep
      obtain ⟨hline, hsame, haccept⟩ | ⟨rfl, answer, hanswer, haccept⟩ := hcase
      · rw [challengeAnswers_other hline, ← haccept, ← hsame] at hdata
        obtain ⟨-, lines, hsplit, hcompletes⟩ := ih hrest hdata
        refine ⟨line :: lines, by rw [← hsame, hsplit]; rfl, .inr ?_⟩
        exact Identified.of_completes [line]
          (fun hauth => identifies_argument (by simpa [haccept] using hauth)) hcompletes
      · rw [hanswer, challengeAnswers, if_pos rfl] at hdata
        simp only [mem_cons, forall_eq_or_imp, ← haccept] at hdata
        obtain ⟨-, lines, hsplit, hcompletes⟩ := ih hrest hdata.2
        refine ⟨authExternal :: answer :: lines, by rw [hanswer, hsplit]; rfl, .inr ?_⟩
        exact Identified.of_completes [authExternal, answer]
          (fun hauth => identifies_answer hdata.1 (haccept ▸ hauth)) hcompletes
    | true =>
      rw [hstate] at hauth hdata
      rw [if_neg (by simp [hauth])] at hrun
      by_cases hbegin : line = begin
      · rw [if_pos hbegin] at hrun
        cases hrun
        refine ⟨[begin], ?_, .inl ⟨rfl, [], rfl, by simp⟩⟩
        rw [hbegin, rest_of_not_first _ hfirst]
        rfl
      · rw [if_neg hbegin] at hrun
        obtain ⟨session', middle', hstep, hrest⟩ := bind_eq_ok.mp hrun
        obtain ⟨hfirst', hsame, hkeep⟩ := afterAuthentication_ok hauth hstep
        rw [challengeAnswers, if_neg hbegin, ← hkeep, ← hsame] at hdata
        obtain ⟨-, lines, hsplit, hcompletes⟩ := ih hrest hdata
        refine ⟨line :: lines, by rw [← hsame, hsplit]; rfl, ?_⟩
        obtain ⟨hstill, after, rfl, hcancel⟩ | hidentified := hcompletes
        · refine .inl ⟨rfl, line :: after, rfl, ?_⟩
          grind -linarith
        · exact .inr (hidentified.cons line)

/-- A handshake in which every answer to a challenge is a `DATA` line succeeds
only for a client that started with NUL and identified itself. -/
theorem authenticateServer_sound (guid : Guid) (uid : UInt32) (channel channel' : Channel) (result : Authenticated)
    (h : authenticateServer guid uid channel = .ok result channel')
    (hdata : ∀ answer ∈ challengeAnswers uid false (linesOf channel.bytes.tail), IsData answer) :
    channel.bytes.head? = some 0 ∧
      ∃ lines, linesOf channel.bytes.tail = lines ++ linesOf (result.buffered ++ channel'.bytes) ∧
        Identified uid lines := by
  obtain ⟨hnul, lines, hsplit, hcompletes⟩ := serverLoop_sound h hdata
  refine ⟨hnul rfl, lines, hsplit, ?_⟩
  obtain ⟨hfalse, -⟩ | hidentified := hcompletes
  · cases hfalse
  · exact hidentified

section Ends

end Ends

/-- A client that sends the given bytes at once and reads every answer. -/
def clientSends (text : Bytes) : Channel :=
  ⟨keep (text.map fun byte => ⟨byte, []⟩) [], false, maxAuthCommands, []⟩

def zeroGuid : Guid := ⟨List.replicate 16 0, by decide⟩

def rootHandshake : Channel := clientSends (0 :: ofAscii "AUTH EXTERNAL\r\nDATA 30\r\nNEGOTIATE_UNIX_FD\r\nBEGIN\r\n")

theorem rootHandshake_sound : ∃ result channel', authenticateServer zeroGuid 0 rootHandshake = .ok result channel' ∧
    rootHandshake.bytes.head? = some 0 ∧
    ∃ lines, linesOf rootHandshake.bytes.tail = lines ++ linesOf (result.buffered ++ channel'.bytes) ∧
      Identified 0 lines := by
  have hok : (match authenticateServer zeroGuid 0 rootHandshake with
    | .ok _ _ => true
    | .error _ _ => false) = true := by decide +kernel
  have hanswers : challengeAnswers 0 false (linesOf rootHandshake.bytes.tail) = [ofAscii "DATA 30"] := by
    decide +kernel
  cases hrun : authenticateServer zeroGuid 0 rootHandshake with
  | ok result channel' =>
    refine ⟨result, channel', rfl, authenticateServer_sound zeroGuid 0 rootHandshake channel' result hrun ?_⟩
    rw [hanswers]
    intro answer hanswer
    rw [mem_singleton.mp hanswer]
    exact .inr (by decide)
  | error e channel' => simp [hrun] at hok

/-- Every identification holds an argument or a `DATA` line. -/
theorem Identified.mem (h : Identified uid lines) : ∃ line ∈ lines, authExternalArgument <+: line ∨ IsData line := by
  obtain ⟨before, identity, after, rfl, hid, -⟩ := h
  unfold Identifies at hid
  split at hid
  · grind [prefix_append]
  · rename_i line answer
    refine ⟨answer, by simp, .inr ?_⟩
    obtain ⟨-, rfl | rfl | ⟨argument, rfl, -⟩⟩ := hid
    · exact .inl rfl
    · exact .inr (prefix_refl _)
    · exact .inr (prefix_append _ _)
  · exact hid.elim

instance (line : Bytes) : Decidable (IsData line) := inferInstanceAs (Decidable (_ ∨ _))

def cancelledChallenge : Channel := clientSends (0 :: ofAscii "AUTH EXTERNAL\r\nCANCEL\r\nBEGIN\r\n")

/-- The answer to the challenge is not looked at unless it starts with `DATA `:
a client that cancels is authenticated with any uid. -/
theorem cancelledChallenge_accepted : ∃ result channel',
    authenticateServer zeroGuid 1000 cancelledChallenge = .ok result channel' ∧
    ¬ ∃ lines, linesOf cancelledChallenge.bytes.tail = lines ++ linesOf (result.buffered ++ channel'.bytes) ∧
      Identified 1000 lines := by
  have hok : (match authenticateServer zeroGuid 1000 cancelledChallenge with
    | .ok result channel' => decide (result.buffered ++ channel'.bytes = [])
    | .error _ _ => false) = true := by decide +kernel
  cases hrun : authenticateServer zeroGuid 1000 cancelledChallenge with
  | ok result channel' =>
    refine ⟨result, channel', rfl, ?_⟩
    rintro ⟨lines, hlines, hidentified⟩
    simp only [hrun, decide_eq_true_eq] at hok
    rw [hok, show linesOf [] = [] from rfl, append_nil] at hlines
    have hnone : ¬ ∃ line ∈ linesOf cancelledChallenge.bytes.tail, authExternalArgument <+: line ∨ IsData line := by
      decide +kernel
    grind [hidentified.mem]
  | error e channel' => simp [hrun] at hok

end TensorDE.Dbus
