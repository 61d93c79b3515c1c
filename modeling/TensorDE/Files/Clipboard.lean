import TensorDE.Lib.Bytes
import TensorDE.Lib.Utf8

set_option linter.dupNamespace false

namespace TensorDE.Files

open Utf8 List

inductive NetworkUrlError where
  | empty
  | missingScheme (uri : Str)
  | invalidScheme (scheme : Str)
  | unsupportedScheme (scheme : Str)
  | rootOnlyScheme (scheme : Str)
  | missingAuthority (scheme : Str)
  | invalidControlCharacter
deriving DecidableEq

def networkRootUri : Str := "network:///".toList

def supportedNetworkSchemes : List Str :=
  ["network", "remote", "smb", "sftp", "fish", "ftp", "ftps", "nfs", "dav", "davs", "webdav", "webdavs"].map String.toList

variable (c : Char)

/-- `char::to_ascii_lowercase`. -/
def asciiLower : Char := if 65 ≤ c.toNat ∧ c.toNat ≤ 90 then Char.ofNat (c.toNat + 32) else c

def isAsciiAlphabetic : Bool := (65 ≤ c.toNat && c.toNat ≤ 90) || (97 ≤ c.toNat && c.toNat ≤ 122)

def schemeChar : Bool :=
  isAsciiAlphabetic c || (48 ≤ c.toNat && c.toNat ≤ 57) || c == '+' || c == '-' || c == '.'

variable (uri : Str)

def splitScheme : Except NetworkUrlError (Str × Str) :=
  match uri.dropWhile (· ≠ ':') with
  | [] => .error (.missingScheme uri)
  | _ :: rest => .ok (uri.takeWhile (· ≠ ':'), rest)

def validScheme : Str → Bool
  | [] => false
  | first :: chars => isAsciiAlphabetic first && chars.all schemeChar

variable (scheme : Str)

def isSupportedNetworkScheme : Bool := (scheme.map asciiLower) ∈ supportedNetworkSchemes

def normalizeNetworkRoot (scheme rest : Str) : Except NetworkUrlError Str :=
  if rest.all (· == '/') then .ok networkRootUri else .error (.rootOnlyScheme scheme)

def authority (afterSlashes : Str) : Str := afterSlashes.takeWhile fun c => c ≠ '/' ∧ c ≠ '?' ∧ c ≠ '#'

def shareUri (scheme afterSlashes : Str) : Str := scheme ++ ':' :: '/' :: '/' :: afterSlashes

def normalizeNetworkShare : Str → Except NetworkUrlError Str
  | '/' :: '/' :: afterSlashes =>
    if authority afterSlashes = [] then .error (.missingAuthority scheme)
    else if '/' ∈ afterSlashes then .ok (shareUri scheme afterSlashes)
    else .ok (shareUri scheme (afterSlashes ++ ['/']))
  | _ => .error (.missingAuthority scheme)

def normalizeScheme (rawScheme rest : Str) : Except NetworkUrlError Str :=
  if !validScheme rawScheme then .error (.invalidScheme rawScheme)
  else if !isSupportedNetworkScheme (rawScheme.map asciiLower) then .error (.unsupportedScheme (rawScheme.map asciiLower))
  else if rawScheme.map asciiLower = "network".toList ∨ rawScheme.map asciiLower = "remote".toList then
    normalizeNetworkRoot (rawScheme.map asciiLower) rest
  else normalizeNetworkShare (rawScheme.map asciiLower) rest

variable (byte : UInt8)

def isControlByte : Bool := byte < 0x20 || byte == 0x7f

def normalizeNetworkUri : Except NetworkUrlError Str :=
  if trim uri = [] then .error .empty
  else if (encode (trim uri)).any isControlByte then .error .invalidControlCharacter
  else do
    let split ← splitScheme (trim uri)
    normalizeScheme split.1 split.2

/-- `Path::to_str`. -/
def toStr (path : Bytes) : Option Str := if encode (lossy path) = path then some (lossy path) else none

def networkUriFromPath (path : Bytes) : Option Str := (toStr path).bind fun text => (normalizeNetworkUri text).toOption

def uriPathByteIsUnreserved : Bool := Bytes.isAlphanumeric byte || byte ∈ Bytes.ofAscii "-._~"

def hexDigit (value : UInt8) : Char := if value ≤ 9 then Char.ofNat (48 + value.toNat) else Char.ofNat (55 + value.toNat)

def hexValue : Option UInt8 :=
  if 48 ≤ byte ∧ byte ≤ 57 then some (byte - 48)
  else if 97 ≤ byte ∧ byte ≤ 102 then some (byte - 97 + 10)
  else if 65 ≤ byte ∧ byte ≤ 70 then some (byte - 65 + 10)
  else none

def escapeByte : Str :=
  if uriPathByteIsUnreserved byte || byte == 47 then [Char.ofNat byte.toNat]
  else ['%', hexDigit (byte >>> 4), hexDigit (byte &&& 0x0f)]

def fileScheme : Str := "file://".toList

def fileUriFromPath (path : Bytes) : Str := fileScheme ++ path.flatMap escapeByte

def percentDecode : Bytes → Option Bytes
  | [] => some []
  | byte :: rest =>
    if byte = 37 then
      match rest with
      | high :: low :: rest => do
        let high ← hexValue high
        let low ← hexValue low
        return ((high <<< 4) ||| low) :: (← percentDecode rest)
      | _ => none
    else (percentDecode rest).map (byte :: ·)

def fileUriToPath : Option Bytes :=
  if fileScheme.isPrefixOf uri then percentDecode (encode (uri.drop fileScheme.length)) else none

def pathUriFromPath (path : Bytes) : Str := (networkUriFromPath path).getD (fileUriFromPath path)

theorem toNat_ofNat {n : Nat} (h : n < 0xd800) : (Char.ofNat n).toNat = n := by
  rw [Char.ofNat, dif_pos (Or.inl h)]
  rfl

variable {c : Char}

theorem asciiLower_of_not (h : ¬(65 ≤ c.toNat ∧ c.toNat ≤ 90)) : asciiLower c = c := if_neg h

theorem toNat_asciiLower (h : 65 ≤ c.toNat ∧ c.toNat ≤ 90) : (asciiLower c).toNat = c.toNat + 32 := by
  rw [asciiLower, if_pos h]
  exact toNat_ofNat (by omega)

theorem asciiLower_asciiLower (c : Char) : asciiLower (asciiLower c) = asciiLower c := by
  grind [asciiLower_of_not, toNat_asciiLower]

theorem isAsciiAlphabetic_lower (h : isAsciiAlphabetic c = true) : isAsciiAlphabetic (asciiLower c) = true := by
  grind [isAsciiAlphabetic, toNat_asciiLower, asciiLower_of_not]

theorem schemeChar_lower (h : schemeChar c = true) : schemeChar (asciiLower c) = true := by
  grind -linarith [isAsciiAlphabetic_lower, isAsciiAlphabetic, schemeChar, asciiLower_of_not]

/-- What a scheme is made of stands neither for the end of the scheme nor for a control byte or white space. -/
theorem schemeChar_plain (h : schemeChar c = true) :
    c ≠ ':' ∧ 33 ≤ c.toNat ∧ c.toNat ≤ 126 ∧ isWhitespace c = false := by
  simp only [schemeChar, isAsciiAlphabetic, Bool.or_eq_true, Bool.and_eq_true, decide_eq_true_eq, beq_iff_eq] at h
  have hrange : c.toNat ≠ 58 ∧ 33 ≤ c.toNat ∧ c.toNat ≤ 126 := by
    rcases h with ((((h | h) | h) | rfl) | rfl) | rfl
    · omega
    · omega
    · omega
    · decide
    · decide
    · decide
  refine ⟨?_, hrange.2.1, hrange.2.2, ?_⟩
  · rintro rfl
    exact hrange.1 rfl
  · simp only [isWhitespace, decide_eq_false_iff_not]
    omega

/-- The scheme and the rest of a share's address as the code writes it. -/
structure Share (scheme afterSlashes : Str) : Prop where
  valid : validScheme scheme = true
  lower : scheme.map asciiLower = scheme
  supported : isSupportedNetworkScheme scheme = true
  share : ¬(scheme = "network".toList ∨ scheme = "remote".toList)
  host : authority afterSlashes ≠ []
  slash : '/' ∈ afterSlashes
  plain : (encode afterSlashes).any isControlByte = false
  last : ∀ c, afterSlashes.getLast? = some c → isWhitespace c = false

variable {scheme : Str}

theorem validScheme_iff : validScheme scheme = true ↔
    ∃ first chars, scheme = first :: chars ∧ isAsciiAlphabetic first = true ∧ ∀ c ∈ scheme, schemeChar c = true := by
  cases scheme with
  | nil => simp [validScheme]
  | cons first chars => grind [validScheme, schemeChar]

theorem validScheme_lower (h : validScheme scheme = true) : validScheme (scheme.map asciiLower) = true := by
  grind -linarith [validScheme_iff, isAsciiAlphabetic_lower, schemeChar_lower]

theorem map_asciiLower_twice (scheme : Str) : (scheme.map asciiLower).map asciiLower = scheme.map asciiLower := by
  rw [map_map]
  exact map_congr_left fun c _ => asciiLower_asciiLower c

theorem authority_append {afterSlashes : Str} (h : authority afterSlashes ≠ []) (more : Str) :
    authority (afterSlashes ++ more) ≠ [] := by
  cases afterSlashes with
  | nil => exact absurd rfl h
  | cons c rest => grind [authority, takeWhile_cons]

variable {text : Str}

theorem of_all {P : Char → Prop} [DecidablePred P] (h : text.all (fun c => decide (P c)) = true) : ∀ c ∈ text, P c := by
  simpa using h

theorem splitScheme_append {scheme : Str} (h : ∀ c ∈ scheme, c ≠ ':') (rest : Str) :
    splitScheme (scheme ++ ':' :: rest) = .ok (scheme, rest) := by
  have hall : ∀ c ∈ scheme, (fun c : Char => decide (c ≠ ':')) c = true := fun c hc => decide_eq_true (h c hc)
  rw [splitScheme, dropWhile_append_of_pos hall, takeWhile_append_of_pos hall]
  simp

variable {uri rest : Str}

theorem of_splitScheme (h : splitScheme uri = .ok (scheme, rest)) : uri = scheme ++ ':' :: rest := by
  grind [splitScheme, takeWhile_append_dropWhile, head?_dropWhile_not]

namespace Share

variable {scheme afterSlashes : Str}

variable {c : Char}

section

variable (h : Share scheme afterSlashes)
include h

theorem head (hc : (shareUri scheme afterSlashes).head? = some c) : schemeChar c = true := by
  grind [validScheme_iff, h.valid, shareUri]

theorem getLast (hc : (shareUri scheme afterSlashes).getLast? = some c) : isWhitespace c = false := by
  obtain ⟨d, rest, rfl⟩ : ∃ d rest, afterSlashes = d :: rest := by
    refine exists_cons_of_ne_nil ?_
    rintro rfl
    exact h.host rfl
  grind [shareUri, h.last]

theorem trim_eq : trim (shareUri scheme afterSlashes) = shareUri scheme afterSlashes :=
  (trim_eq_self_iff).mpr ⟨fun _ hc => Bool.eq_false_iff.mp (schemeChar_plain (h.head hc)).2.2.2,
    fun _ hc => Bool.eq_false_iff.mp (h.getLast hc)⟩

theorem no_control : (encode (shareUri scheme afterSlashes)).any isControlByte = false := by
  obtain ⟨first, chars, heq, hfirst, hchars⟩ := (validScheme_iff).mp h.valid
  have hscheme : (encode scheme).any isControlByte = false := by
    rw [any_eq_false]
    intro b hb
    obtain ⟨c, hc, hb⟩ := mem_flatMap.mp hb
    obtain ⟨-, hlow, hhigh, -⟩ := schemeChar_plain (hchars c hc)
    rw [encodeChar_ascii (by omega), mem_singleton] at hb
    subst hb
    simp only [isControlByte, Bool.or_eq_true, decide_eq_true_eq, beq_iff_eq, not_or, ← UInt8.toNat_inj]
    change ¬c.toNat % 256 < 32 ∧ ¬c.toNat % 256 = 127
    omega
  rw [shareUri, encode_append, any_append, hscheme]
  simp only [encode_cons, any_append, h.plain]
  decide

theorem normalize : normalizeNetworkUri (shareUri scheme afterSlashes) = .ok (shareUri scheme afterSlashes) := by
  obtain ⟨first, chars, heq, hfirst, hchars⟩ := (validScheme_iff).mp h.valid
  rw [normalizeNetworkUri, h.trim_eq, if_neg (by simp [shareUri]), h.no_control, if_neg Bool.false_ne_true, shareUri,
    splitScheme_append fun c hc => (schemeChar_plain (hchars c hc)).1]
  simp only [bind, Except.bind, normalizeScheme, h.valid, h.lower, h.supported, if_neg h.share, normalizeNetworkShare, if_neg h.host, if_pos h.slash]
  rfl

end

end Share

theorem trim_trim (text : Str) : trim (trim text) = trim text := by
  refine (trim_eq_self_iff).mpr ⟨fun c hc => ?_, fun c hc => ?_⟩
  · obtain ⟨more, hmore⟩ := rdropWhile_prefix isWhitespace (text.dropWhile isWhitespace)
    have hhead := head?_dropWhile_not isWhitespace text
    rw [← hmore, head?_append, show (List.rdropWhile _ _).head? = some c from hc] at hhead
    simpa using hhead
  · have hne : trim text ≠ [] := by
      rintro hnil
      simp [hnil] at hc
    rw [getLast?_eq_getLast_of_ne_nil hne] at hc
    exact Option.some.inj hc ▸ rdropWhile_last_not _ _ hne

theorem any_isControlByte_append {a b : Str} : (encode (a ++ b)).any isControlByte = false ↔
      (encode a).any isControlByte = false ∧ (encode b).any isControlByte = false := by
  rw [encode_append, any_append, Bool.or_eq_false_iff]

theorem of_normalizeNetworkShare (h : normalizeNetworkShare scheme rest = .ok uri) :
    ∃ afterSlashes, rest = '/' :: '/' :: afterSlashes ∧ authority afterSlashes ≠ [] ∧
      uri = shareUri scheme (if '/' ∈ afterSlashes then afterSlashes else afterSlashes ++ ['/']) := by
  unfold normalizeNetworkShare at h
  grind

theorem of_normalizeNetworkUri (h : normalizeNetworkUri text = .ok uri) :
    uri = networkRootUri ∨ ∃ scheme afterSlashes, uri = shareUri scheme afterSlashes ∧ Share scheme afterSlashes := by
  rw [normalizeNetworkUri] at h
  split_ifs at h with hempty hcontrol
  rw [Bool.not_eq_true] at hcontrol
  cases hsplit : splitScheme (trim text) with
  | error e => simp [hsplit, bind, Except.bind] at h
  | ok split =>
    obtain ⟨raw, rest⟩ := split
    have htext := of_splitScheme hsplit
    have hlast := ((trim_eq_self_iff).mp (trim_trim text)).2
    rw [htext] at hcontrol hlast
    simp only [hsplit, bind, Except.bind, normalizeScheme] at h
    split_ifs at h with hvalid hsupported hroot
    · rw [normalizeNetworkRoot] at h
      split_ifs at h
      exact .inl (Except.ok.inj h).symm
    · obtain ⟨afterSlashes, rfl, hhost, rfl⟩ := of_normalizeNetworkShare h
      obtain ⟨-, hplain⟩ := (any_isControlByte_append).mp hcontrol
      have hafter : (encode afterSlashes).any isControlByte = false := by
        have happend : ':' :: '/' :: '/' :: afterSlashes = [':', '/', '/'] ++ afterSlashes := rfl
        rw [happend] at hplain
        exact ((any_isControlByte_append).mp hplain).2
      refine .inr ⟨raw.map asciiLower, _, rfl, validScheme_lower (by simpa using hvalid), map_asciiLower_twice raw,
        by simpa using hsupported, hroot, ?_, ?_, ?_, ?_⟩
      · split_ifs
        · exact hhost
        · exact authority_append hhost _
      · split_ifs with hslash
        · exact hslash
        · simp
      · split_ifs
        · exact hafter
        · exact (any_isControlByte_append).mpr ⟨hafter, by decide⟩
      · intro c hc
        split_ifs at hc with hslash
        · grind
        · obtain rfl : '/' = c := by simpa using hc
          decide

theorem normalizeNetworkUri_idempotent (h : normalizeNetworkUri text = .ok uri) :
    normalizeNetworkUri uri = .ok uri := by
  obtain rfl | ⟨scheme, afterSlashes, rfl, hshare⟩ := of_normalizeNetworkUri h
  · decide +kernel
  · exact hshare.normalize

namespace Clipboard

def cutMarker : Str := "# tensor-files-cut".toList

def gnomeCopyMarker : Str := "copy".toList

def gnomeCutMarker : Str := "cut".toList

inductive FileClipboardRole where
  | copy
  | cut
deriving DecidableEq

structure FileClipboardPayload where
  role : FileClipboardRole
  paths : List Bytes
deriving DecidableEq

/-- `lines.join("\n")`. -/
def joinLines (lines : List Str) : Str := List.intercalate ['\n'] lines

def encodeFileClipboardText (role : FileClipboardRole) (paths : List Bytes) : Str :=
  joinLines ((if role = .cut then [cutMarker] else []) ++ paths.map pathUriFromPath)

def lineOf (line : Str) : Str := if line.getLast? = some '\r' then line.dropLast else line

/-- `str::lines`, with the line that has begun. -/
def linesFrom : Str → Str → List Str
  | line, [] => if line = [] then [] else [line]
  | line, c :: text => if c = '\n' then lineOf line :: linesFrom [] text else linesFrom (line ++ [c]) text

def lines (text : Str) : List Str := linesFrom [] text

def parseClipboardPathLine (line : Str) : Option Bytes :=
  if fileScheme.isPrefixOf line then fileUriToPath line
  else
    match normalizeNetworkUri line with
    | .ok uri => some (encode uri)
    | .error _ => if line.head? = some '/' then some (encode line) else none

structure Decoding where
  role : FileClipboardRole
  paths : List Bytes
  firstPayloadLine : Bool
deriving DecidableEq

def Decoding.path (d : Decoding) (line : Str) : Decoding :=
  { d with firstPayloadLine := false, paths := d.paths ++ (parseClipboardPathLine line).toList }

def Decoding.line (d : Decoding) (line : Str) : Decoding :=
  if line = [] then d
  else if line.head? = some '#' then if line = cutMarker then { d with role := .cut } else d
  else if d.firstPayloadLine then
    if line = gnomeCutMarker then { d with role := .cut, firstPayloadLine := false }
    else if line = gnomeCopyMarker then { d with role := .copy, firstPayloadLine := false }
    else d.path line
  else d.path line

def decodeFileClipboardText (text : Str) : Option FileClipboardPayload :=
  let d : Decoding := (lines text).foldl (fun d raw => d.line (trim raw)) ⟨.copy, [], true⟩
  if d.paths = [] then none else some ⟨d.role, d.paths⟩

theorem plain_escapeByte (byte : UInt8) (h : (uriPathByteIsUnreserved byte || byte == 47) = true) :
    byte.toNat < 128 ∧ 33 ≤ byte.toNat ∧ byte ≠ 37 := by
  revert h
  exact Bytes.forall_byte (P := fun byte => (uriPathByteIsUnreserved byte || byte == 47) = true →
    byte.toNat < 128 ∧ 33 ≤ byte.toNat ∧ byte ≠ 37) (by decide +kernel) byte

theorem hexDigits (byte : UInt8) : let high := hexDigit (byte >>> 4); let low := hexDigit (byte &&& 0x0f)
    (33 ≤ high.toNat ∧ high.toNat < 128 ∧ 33 ≤ low.toNat ∧ low.toNat < 128) ∧
      hexValue (UInt8.ofNat high.toNat) = some (byte >>> 4) ∧ hexValue (UInt8.ofNat low.toNat) = some (byte &&& 0x0f) ∧
      ((byte >>> 4) <<< 4) ||| (byte &&& 0x0f) = byte :=
  Bytes.forall_byte (P := fun byte => let high := hexDigit (byte >>> 4); let low := hexDigit (byte &&& 0x0f)
    (33 ≤ high.toNat ∧ high.toNat < 128 ∧ 33 ≤ low.toNat ∧ low.toNat < 128) ∧
      hexValue (UInt8.ofNat high.toNat) = some (byte >>> 4) ∧ hexValue (UInt8.ofNat low.toNat) = some (byte &&& 0x0f) ∧
      ((byte >>> 4) <<< 4) ||| (byte &&& 0x0f) = byte) (by decide +kernel) byte

theorem mem_escapeByte {byte : UInt8} {c : Char} (h : c ∈ escapeByte byte) : 33 ≤ c.toNat ∧ c.toNat < 128 := by
  rw [escapeByte] at h
  split at h
  · grind -linarith [plain_escapeByte, toNat_ofNat]
  · obtain ⟨hrange, -⟩ := hexDigits byte
    simp only [mem_cons, not_mem_nil, or_false] at h
    obtain rfl | rfl | rfl := h
    · decide
    · exact ⟨hrange.1, hrange.2.1⟩
    · exact hrange.2.2

theorem percentDecode_escapeByte (byte : UInt8) (rest : Bytes) :
    percentDecode (encode (escapeByte byte) ++ rest) = (percentDecode rest).map (byte :: ·) := by
  rw [escapeByte]
  split
  · grind -linarith [plain_escapeByte, toNat_ofNat, encode_cons, encodeChar_ascii, UInt8.ofNat_toNat, encode_nil, percentDecode.eq_def]
  · obtain ⟨⟨-, hhigh, -, hlow⟩, hhighValue, hlowValue, hbyte⟩ := hexDigits byte
    have hpercent : String.utf8EncodeChar '%' = [37] := encodeChar_ascii (by decide)
    rw [encode_cons, encode_cons, encode_cons, hpercent, encodeChar_ascii hhigh, encodeChar_ascii hlow, encode_nil]
    simp only [cons_append, nil_append, percentDecode, hhighValue, hlowValue]
    cases percentDecode rest with
    | none => rfl
    | some tail => exact congrArg (fun byte => some (byte :: tail)) hbyte

theorem fileUriToPath_fileUriFromPath (path : Bytes) : fileUriToPath (fileUriFromPath path) = some path := by
  have hdecode : percentDecode (encode (path.flatMap escapeByte)) = some path := by
    induction path with
    | nil => rfl
    | cons byte path ih => rw [flatMap_cons, encode_append, percentDecode_escapeByte, ih, Option.map_some]
  grind [fileUriToPath, fileUriFromPath]

/-- A line that the decoder takes for a path as it stands. -/
structure Clean (line : Str) : Prop where
  nonempty : line ≠ []
  whole : ∀ c ∈ line, c ≠ '\n'
  head : ∀ c, line.head? = some c → isWhitespace c = false ∧ c ≠ '#'
  last : ∀ c, line.getLast? = some c → isWhitespace c = false
  colon : ':' ∈ line

namespace Clean

variable {line : Str}

theorem trim_eq (h : Clean line) : trim line = line :=
  (trim_eq_self_iff).mpr ⟨fun c hc => Bool.eq_false_iff.mp (h.head c hc).1, fun c hc => Bool.eq_false_iff.mp (h.last c hc)⟩

theorem line_eq (h : Clean line) (d : Decoding) : d.line (trim line) = d.path line := by
  have hcut : line ≠ gnomeCutMarker := by
    rintro rfl
    exact absurd h.colon (by decide)
  have hcopy : line ≠ gnomeCopyMarker := by
    rintro rfl
    exact absurd h.colon (by decide)
  rw [h.trim_eq, Decoding.line, if_neg h.nonempty, if_neg fun hc => (h.head '#' hc).2 rfl, if_neg hcut, if_neg hcopy,
    ite_self]

theorem of_graphic (hnonempty : line ≠ []) (hline : ∀ c ∈ line, 33 ≤ c.toNat ∧ c.toNat < 128)
    (hhead : line.head? ≠ some '#') (hcolon : ':' ∈ line) : Clean line := by
  have hblack : ∀ c ∈ line, isWhitespace c = false ∧ c ≠ '\n' := by
    intro c hc
    obtain ⟨hlow, hhigh⟩ := hline c hc
    refine ⟨by simp only [isWhitespace, decide_eq_false_iff_not]; omega, ?_⟩
    rintro rfl
    exact absurd hlow (by decide)
  refine ⟨hnonempty, fun c hc => (hblack c hc).2, fun c hc => ⟨(hblack c (mem_of_head? hc)).1, ?_⟩,
    fun c hc => (hblack c (mem_of_getLast? hc)).1, hcolon⟩
  rintro rfl
  exact hhead hc

theorem fileUri (path : Bytes) : Clean (fileUriFromPath path) := by
  have heq : fileUriFromPath path = ['f', 'i', 'l', 'e', ':', '/', '/'] ++ path.flatMap escapeByte := rfl
  refine of_graphic (by simp [heq]) (fun c hc => ?_) (by simp [heq]) (by simp [heq])
  obtain hc | hc := mem_append.mp hc
  · exact of_all (P := fun c => 33 ≤ c.toNat ∧ c.toNat < 128) (by decide) c hc
  · obtain ⟨byte, -, hc⟩ := mem_flatMap.mp hc
    exact mem_escapeByte hc

theorem networkUri {text uri : Str} (h : normalizeNetworkUri text = .ok uri) : Clean uri := by
  obtain rfl | ⟨scheme, afterSlashes, rfl, hshare⟩ := of_normalizeNetworkUri h
  · exact of_graphic (by decide) (of_all (by decide)) (by decide) (by decide)
  · refine ⟨by simp [shareUri], ?_, fun c hc => ?_, fun c hc => hshare.getLast hc, by simp [shareUri]⟩
    · rintro c hc rfl
      have hbyte : (10 : UInt8) ∈ encode (shareUri scheme afterSlashes) :=
        mem_flatMap.mpr ⟨'\n', hc, by decide⟩
      exact absurd ((any_eq_false.mp hshare.no_control) 10 hbyte) (by decide)
    · refine ⟨(schemeChar_plain (hshare.head hc)).2.2.2, ?_⟩
      rintro rfl
      exact absurd (hshare.head hc) (by decide)

end Clean

theorem linesFrom_append {line text : Str} (hline : ∀ c ∈ line, c ≠ '\n') (begun : Str) :
    linesFrom begun (line ++ text) = linesFrom (begun ++ line) text := by
  induction line generalizing begun with
  | nil => simp
  | cons c line ih => grind [linesFrom]

variable {rows : List Str}

theorem lines_joinLines (h : ∀ line ∈ rows, line ≠ [] ∧ (∀ c ∈ line, c ≠ '\n') ∧ line.getLast? ≠ some '\r') :
    lines (joinLines rows) = rows := by
  induction rows with
  | nil => rfl
  | cons line rest ih =>
    simp only [mem_cons, forall_eq_or_imp] at h
    obtain ⟨⟨hne, hline, hlast⟩, hrest⟩ := h
    rw [lines, joinLines]
    cases rest with
    | nil =>
      have hend : linesFrom [] (line ++ []) = linesFrom ([] ++ line) [] := linesFrom_append hline []
      grind [intercalate_singleton, linesFrom]
    | cons next rest =>
      rw [intercalate_cons_cons, append_assoc, linesFrom_append hline, nil_append, singleton_append,
        linesFrom, if_pos rfl, lineOf, if_neg hlast]
      exact congrArg (line :: ·) (ih hrest)

/-- What a path of the clipboard may be: an absolute local path, or a normal network address. -/
def ClipboardPath (path : Bytes) : Prop :=
  (path.head? = some 47 ∧ 0 ∉ path) ∨ ∃ text uri, normalizeNetworkUri text = .ok uri ∧ path = encode uri

theorem toStr_encode (text : Str) : toStr (encode text) = some text := by
  rw [toStr, lossy_encode, if_pos rfl]

variable {path : Bytes}

theorem encode_of_toStr {text : Str} (h : toStr path = some text) : encode text = path := by
  rw [toStr] at h
  split_ifs at h with hpath
  rwa [← Option.some.inj h]

theorem networkUriFromPath_absolute (h : path.head? = some 47) : networkUriFromPath path = none := by
  rw [networkUriFromPath, Option.bind_eq_none_iff]
  intro text htext
  have hpath := encode_of_toStr htext
  cases hnormal : normalizeNetworkUri text with
  | error e => rfl
  | ok uri =>
    have hfirst : (encode text)[0]? = some 47 := by rw [hpath, ← head?_eq_getElem?, h]
    obtain ⟨pre, c, post, rfl, hpre, hc⟩ := split_at_ascii hfirst (by decide)
    obtain rfl := size_eq_zero.mp hpre
    obtain rfl : c = '/' := Char.ext (UInt32.toNat_inj.mp hc)
    have hstarts : trim ('/' :: post) <+: '/' :: post := by
      exact rdropWhile_prefix _ _
    rw [nil_append, normalizeNetworkUri] at hnormal
    split_ifs at hnormal
    cases hsplit : splitScheme (trim ('/' :: post)) with
    | error e => simp [hsplit, bind, Except.bind] at hnormal
    | ok split =>
      rw [of_splitScheme hsplit] at hstarts
      simp only [hsplit, bind, Except.bind, normalizeScheme] at hnormal
      split_ifs at hnormal with hvalid
      all_goals
        obtain ⟨first, chars, heq, hfirst, -⟩ := (validScheme_iff).mp (by simpa using hvalid)
        rw [heq, cons_append, cons_prefix_cons] at hstarts
        exact absurd (hstarts.1 ▸ hfirst) (by decide)

theorem not_fileScheme {text uri : Str} (h : normalizeNetworkUri text = .ok uri) : fileScheme.isPrefixOf uri = false := by
  obtain rfl | ⟨scheme, afterSlashes, rfl, hshare⟩ := of_normalizeNetworkUri h
  · decide
  · rw [Bool.eq_false_iff]
    intro hstarts
    obtain ⟨rest, hrest⟩ := isPrefixOf_iff_prefix.mp hstarts
    obtain ⟨first, chars, -, -, hchars⟩ := (validScheme_iff).mp hshare.valid
    have hsplit := splitScheme_append (fun c hc => (schemeChar_plain (hchars c hc)).1) ('/' :: '/' :: afterSlashes)
    have hfile : splitScheme (fileScheme ++ rest) = .ok ("file".toList, '/' :: '/' :: rest) :=
      @splitScheme_append "file".toList (of_all (by decide)) ('/' :: '/' :: rest)
    rw [hrest, shareUri, hsplit] at hfile
    obtain rfl : scheme = "file".toList := congrArg Prod.fst (Except.ok.inj hfile)
    exact absurd hshare.supported (by decide)

theorem path_round_trip (h : ClipboardPath path) :
    Clean (pathUriFromPath path) ∧ parseClipboardPathLine (pathUriFromPath path) = some path := by
  obtain ⟨habsolute, -⟩ | ⟨text, uri, huri, rfl⟩ := h
  · grind [pathUriFromPath, networkUriFromPath_absolute, fileUriFromPath, Clean.fileUri, parseClipboardPathLine,
      fileUriToPath_fileUriFromPath]
  · have hself := normalizeNetworkUri_idempotent huri
    have hpath : pathUriFromPath (encode uri) = uri := by
      rw [pathUriFromPath, networkUriFromPath, toStr_encode, Option.bind_some, hself]
      rfl
    grind [Clean.networkUri, parseClipboardPathLine, not_fileScheme]

theorem foldl_path (h : ∀ line ∈ rows, Clean line) (d : Decoding) (hd : rows ≠ []) :
    rows.foldl (fun d raw => d.line (trim raw)) d =
      ⟨d.role, d.paths ++ rows.flatMap fun line => (parseClipboardPathLine line).toList, false⟩ := by
  induction rows generalizing d with
  | nil => exact absurd rfl hd
  | cons line rest ih =>
    simp only [mem_cons, forall_eq_or_imp] at h
    grind [h.1.line_eq, Decoding.path]

/-- The text of some files gives the same files back in the same role. -/
theorem decodeFileClipboardText_encodeFileClipboardText (role : FileClipboardRole) {paths : List Bytes} (hne : paths ≠ [])
    (hpaths : ∀ path ∈ paths, ClipboardPath path) :
    decodeFileClipboardText (encodeFileClipboardText role paths) = some ⟨role, paths⟩ := by
  have hclean : ∀ line ∈ paths.map pathUriFromPath, Clean line := by
    intro line hline
    obtain ⟨path, hpath, rfl⟩ := mem_map.mp hline
    exact (path_round_trip (hpaths path hpath)).1
  have hparse : (paths.map pathUriFromPath).flatMap (fun line => (parseClipboardPathLine line).toList) = paths := by
    clear hne hclean
    induction paths with
    | nil => rfl
    | cons path rest ih => grind [path_round_trip]
  have hlines : lines (encodeFileClipboardText role paths) =
      (if role = .cut then [cutMarker] else []) ++ paths.map pathUriFromPath := by
    refine lines_joinLines fun line hline => ?_
    obtain hline | hline := mem_append.mp hline
    · obtain rfl : line = cutMarker := by
        split_ifs at hline
        · exact mem_singleton.mp hline
        · cases hline
      exact ⟨by decide, of_all (by decide), by decide⟩
    · have h := hclean line hline
      exact ⟨h.nonempty, h.whole, fun hlast => absurd (h.last _ hlast) (by decide)⟩
  have hmarker : ∀ role, (if role = .cut then [cutMarker] else []).foldl (fun (d : Decoding) raw => d.line (trim raw))
      ⟨.copy, [], true⟩ = ⟨role, [], true⟩ := by
    intro role
    cases role <;> decide +kernel
  rw [decodeFileClipboardText, hlines, foldl_append, hmarker, foldl_path hclean _ (by simpa using hne), hparse]
  exact if_neg hne

/-- The file clipboard gives back what it is given, and the addresses it writes do not change when they are read. -/
theorem file_clipboard_round_trip : (∀ role (paths : List Bytes), paths ≠ [] → (∀ path ∈ paths, ClipboardPath path) →
      decodeFileClipboardText (encodeFileClipboardText role paths) = some ⟨role, paths⟩) ∧
      ∀ text uri, normalizeNetworkUri text = .ok uri → normalizeNetworkUri uri = .ok uri :=
  ⟨fun role _ hne hpaths => decodeFileClipboardText_encodeFileClipboardText role hne hpaths,
    fun _ _ h => normalizeNetworkUri_idempotent h⟩

theorem file_clipboard_round_trip_mixed : decodeFileClipboardText (encodeFileClipboardText .cut
    [[47, 116, 32, 37, 255], encode "smb://host/share".toList]) =
      some ⟨.cut, [[47, 116, 32, 37, 255], encode "smb://host/share".toList]⟩ :=
  (file_clipboard_round_trip).1 .cut _ (by simp) (by
    intro path hpath
    simp only [mem_cons, not_mem_nil, or_false] at hpath
    obtain rfl | rfl := hpath
    · exact .inl (by decide)
    · exact .inr ⟨"SMB://host/share".toList, _, by decide +kernel, rfl⟩)

end Clipboard

end TensorDE.Files
