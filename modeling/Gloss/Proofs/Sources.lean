import Gloss.CommandLine.Source
import Gloss.Proofs.InsideCharacters

/-! Standard input is cut before its size is judged, and a cut in the middle of a character leaves
bytes that are no text. -/
namespace Gloss.CommandLine

section Bytes

variable {bytes : ByteArray} {source : String} {n : Nat}

/-- Bytes are a text exactly if they are the bytes of this text. -/
theorem fromUTF8?_eq_some_iff :
    String.fromUTF8? bytes = some source ↔ bytes = source.toByteArray := by
  constructor
  · intro h
    rw [String.fromUTF8?] at h
    split at h
    · rw [← Option.some.inj h]
      rfl
    · cases h
  · rintro rfl
    rw [String.fromUTF8?, dif_pos source.isValidUTF8]
    rfl

theorem fromUTF8?_eq_none_iff : String.fromUTF8? bytes = none ↔ ¬bytes.IsValidUTF8 := by
  rw [String.fromUTF8?]
  split <;> simp_all

theorem isValidUTF8_iff : bytes.IsValidUTF8 ↔ ∃ source : String, bytes = source.toByteArray := by
  constructor
  · intro h
    exact ⟨String.fromUTF8 bytes h, rfl⟩
  · rintro ⟨source, rfl⟩
    exact source.isValidUTF8

/-- The front of a text is a text if it ends between two characters. -/
theorem isValidUTF8_extract_iff (h : n ≤ source.utf8ByteSize) :
    (source.toByteArray.extract 0 n).IsValidUTF8 ↔ IsBoundary source n := by
  rw [IsBoundary, String.Pos.Raw.isValid_iff_isValidUTF8_extract_zero]
  exact (and_iff_right h).symm

end Bytes

section Reading

variable {host : Host} {path source : String} {content : ByteArray} {failure : Failure}

theorem readEntry_file_eq_ok_iff : readEntry path (.file content) = .ok source ↔
    content = source.toByteArray ∧ content.size ≤ maxSourceBytes := by
  rw [readEntry]
  split
  case isTrue hlarge =>
    constructor
    · exact nofun
    · rintro ⟨-, hfits⟩
      exact absurd hlarge (Nat.not_lt.mpr hfits)
  case isFalse hfits =>
    rw [and_iff_left (Nat.le_of_not_lt hfits), ← fromUTF8?_eq_some_iff]
    cases String.fromUTF8? content <;> simp

/-- Of bytes that are not too large nothing is cut off. -/
theorem extract_of_fits (h : content.size ≤ maxSourceBytes) :
    content.extract 0 (maxSourceBytes + 1) = content := by
  have hmax : max (maxSourceBytes + 1) content.size = maxSourceBytes + 1 :=
    Nat.max_eq_left (by omega)
  rw [← hmax, ByteArray.extract_zero_max_size]

/-- The cut behind the greatest size is never seen in a text that is accepted. -/
theorem readStandardInput_eq_ok_iff : readStandardInput content = .ok source ↔
    content = source.toByteArray ∧ content.size ≤ maxSourceBytes := by
  constructor
  · intro h
    rw [readStandardInput] at h
    split at h
    · cases h
    · next text htext =>
      split at h
      · cases h
      · next hfits =>
        obtain rfl : text = source := Except.ok.inj h
        -- What was taken has no more than the greatest size, so it was everything.
        have htaken := fromUTF8?_eq_some_iff.mp htext
        have hsize := congrArg ByteArray.size htaken
        rw [ByteArray.size_extract, String.size_toByteArray] at hsize
        have hsmall : content.size ≤ maxSourceBytes := by omega
        rw [extract_of_fits hsmall] at htaken
        exact ⟨htaken, hsmall⟩
  · rintro ⟨rfl, hfits⟩
    rw [readStandardInput, extract_of_fits hfits, fromUTF8?_eq_some_iff.mpr rfl]
    rw [String.size_toByteArray] at hfits
    exact if_neg (Nat.not_lt.mpr hfits)

theorem exitCode_of_readEntry {entry : Entry} (h : readEntry path entry = .error failure) :
    failure.exitCode = 1 := by
  cases entry with
  | unreadable why =>
    obtain rfl := Except.error.inj h
    rfl
  | file content =>
    rw [readEntry] at h
    split at h
    · obtain rfl := Except.error.inj h
      rfl
    · split at h
      · obtain rfl := Except.error.inj h
        rfl
      · cases h

theorem exitCode_of_readStandardInput (h : readStandardInput content = .error failure) :
    failure.exitCode = 1 := by
  rw [readStandardInput] at h
  split at h
  · obtain rfl := Except.error.inj h
    rfl
  · split at h
    · obtain rfl := Except.error.inj h
      rfl
    · cases h

theorem readSource_input (hinput : host.standardInput = content) :
    readSource host standardInputPath = readStandardInput content := by
  rw [readSource, if_pos rfl, hinput]

theorem readSource_file (hpath : path ≠ standardInputPath)
    (hfile : host.find path = .ok (.file content)) :
    readSource host path = readEntry path (.file content) := by
  rw [readSource, if_neg hpath, hfile]

/-- Of a text that is too large the front is taken, which is a text only if the cut is not inside a
character. -/
theorem readStandardInput_large (h : maxSourceBytes < source.utf8ByteSize) :
    (InsideCharacter source (maxSourceBytes + 1) →
      readStandardInput source.toByteArray = .error ⟨"Error reading stdin: " ++ notText, 1⟩) ∧
    (¬InsideCharacter source (maxSourceBytes + 1) → readStandardInput source.toByteArray =
      .error ⟨s!"Input on stdin is too large (max {maxSourceBytes} bytes)", 1⟩) := by
  have hcut := isValidUTF8_extract_iff (show maxSourceBytes + 1 ≤ source.utf8ByteSize from h)
  constructor
  · rintro ⟨-, hinside⟩
    rw [readStandardInput, fromUTF8?_eq_none_iff.mpr (mt hcut.mp hinside)]
  · intro hinside
    have hboundary := Position.isBoundary_of_not_inside hinside
    rw [Nat.min_eq_left h] at hboundary
    obtain ⟨front, hfront⟩ := isValidUTF8_iff.mp (hcut.mpr hboundary)
    have hsize := congrArg ByteArray.size hfront
    rw [ByteArray.size_extract, String.size_toByteArray, String.size_toByteArray] at hsize
    rw [readStandardInput, fromUTF8?_eq_some_iff.mpr hfront]
    exact if_pos (by omega)

end Reading

/-- The same bytes, in a file and on standard input, are read as one text, or both cannot be read
and the program fails. They are read exactly if they are a text that is not too large. -/
theorem readSource_interchangeable (host host' : Host) (path : String) (content : ByteArray)
    (hpath : path ≠ standardInputPath) (hfile : host.find path = .ok (.file content))
    (hinput : host'.standardInput = content) :
    let fromFile := readSource host path
    let fromInput := readSource host' standardInputPath
    ((∃ source, fromFile = .ok source ∧ fromInput = .ok source ∧ source.toByteArray = content) ∨
      ∃ failure failure', fromFile = .error failure ∧ fromInput = .error failure' ∧
        failure.exitCode = 1 ∧ failure'.exitCode = 1) ∧
    ((∃ source, fromFile = .ok source) ↔ content.IsValidUTF8 ∧ content.size ≤ 10485760) ∧
    ((∃ source, fromInput = .ok source) ↔ content.IsValidUTF8 ∧ content.size ≤ 10485760) := by
  intro fromFile fromInput
  have hread (source : String) : fromFile = .ok source ↔
      content = source.toByteArray ∧ content.size ≤ maxSourceBytes := by
    rw [← readEntry_file_eq_ok_iff, ← readSource_file hpath hfile]
  have hread' (source : String) : fromInput = .ok source ↔
      content = source.toByteArray ∧ content.size ≤ maxSourceBytes := by
    rw [← readStandardInput_eq_ok_iff, ← readSource_input hinput]
  -- The two conditions are one and the same, so both ways succeed together or fail together.
  have hvalid : (∃ source : String, content = source.toByteArray ∧ content.size ≤ maxSourceBytes) ↔
      content.IsValidUTF8 ∧ content.size ≤ 10485760 := by
    rw [isValidUTF8_iff, exists_and_right]
    rfl
  refine ⟨?_, (exists_congr hread).trans hvalid, (exists_congr hread').trans hvalid⟩
  cases hfrom : fromFile with
  | ok source =>
    have hsame := (hread source).mp hfrom
    exact Or.inl ⟨source, rfl, (hread' source).mpr hsame, hsame.1.symm⟩
  | error failure =>
    cases hfrom' : fromInput with
    | ok source =>
      rw [(hread source).mpr ((hread' source).mp hfrom')] at hfrom
      cases hfrom
    | error failure' =>
      refine Or.inr ⟨failure, failure', rfl, rfl, ?_, ?_⟩
      · exact exitCode_of_readEntry ((readSource_file hpath hfile).symm.trans hfrom)
      · exact exitCode_of_readStandardInput ((readSource_input hinput).symm.trans hfrom')

section Oversized

def accents (n : Nat) : String := String.ofList (List.replicate n 'é')

theorem byteLength_accents (n : Nat) : byteLength (List.replicate n 'é') = 2 * n := by
  induction n with
  | zero => rfl
  | succ n ih =>
    have hone : 'é'.utf8Size = 2 := by decide
    rw [List.replicate_succ, byteLength_cons, ih, hone]
    omega

theorem utf8ByteSize_accents (n : Nat) : (accents n).utf8ByteSize = 2 * n := by
  rw [accents, utf8ByteSize_ofList, byteLength_accents]

/-- Behind an odd number of bytes there is half a character. -/
theorem insideCharacter_accents {n k : Nat} (h : k < n) :
    InsideCharacter (accents n) (2 * k + 1) := by
  have hbytes : 1 < 'é'.utf8Size := by decide
  rw [insideCharacter_iff]
  refine ⟨List.replicate k 'é', 'é', List.replicate (n - k - 1) 'é', 1, ?_, ?_, Nat.one_pos, hbytes⟩
  · have hsplit : n = k + (n - k - 1 + 1) := by omega
    rw [accents, String.toList_ofList, ← List.replicate_succ, List.replicate_append_replicate,
      ← hsplit]
  · rw [byteLength_accents]

/-- With one more byte in front there is a whole character. -/
theorem isBoundary_accents {n k : Nat} (h : k ≤ n) : IsBoundary ("x" ++ accents n) (2 * k + 1) := by
  rw [isBoundary_iff]
  refine ⟨'x' :: List.replicate k 'é', List.replicate (n - k) 'é', ?_, ?_⟩
  · have hsplit : n = k + (n - k) := by omega
    rw [String.toList_append, accents, String.toList_ofList, String.toList_ofList, List.cons_append,
      List.nil_append, List.cons_append, List.replicate_append_replicate, ← hsplit]
  · rw [byteLength_cons, byteLength_accents, Nat.add_comm]
    rfl

end Oversized

/-- A text of two bytes more than the greatest size can be read from neither place. -/
theorem readSource_interchangeable_oversized :
    let content := (accents 5242881).toByteArray
    let host : Host := ⟨content, fun _ => .ok (.file content), false⟩
    "big.lum" ≠ standardInputPath ∧ ∃ failure failure',
      readSource host "big.lum" = .error failure ∧
        readSource host standardInputPath = .error failure' ∧
        failure.exitCode = 1 ∧ failure'.exitCode = 1 := by
  intro content host
  have hpath : "big.lum" ≠ standardInputPath := by decide
  have hsize : content.size = 10485762 := by
    rw [String.size_toByteArray, utf8ByteSize_accents]
  clear_value content
  obtain ⟨hread, hfile, -⟩ := readSource_interchangeable host host "big.lum" content hpath rfl rfl
  refine ⟨hpath, hread.resolve_left ?_⟩
  rintro ⟨source, hsource, -⟩
  obtain ⟨-, hfits⟩ := hfile.mp ⟨source, hsource⟩
  omega

/-- A text that is too large is refused as too large if it is in a file. From standard input it is
refused as too large unless the cut is inside a character; then it is refused as no text. -/
theorem readSource_oversized (host host' : Host) (path source : String)
    (hpath : path ≠ standardInputPath) (hfile : host.find path = .ok (.file source.toByteArray))
    (hinput : host'.standardInput = source.toByteArray)
    (hlarge : 10485760 < source.utf8ByteSize) :
    readSource host path = .error ⟨s!"Source file '{path}' is too large "
      ++ s!"({source.utf8ByteSize} bytes, max {10485760} bytes)", 1⟩ ∧
    (¬InsideCharacter source 10485761 → readSource host' standardInputPath =
      .error ⟨"Input on stdin is too large (max 10485760 bytes)", 1⟩) ∧
    (InsideCharacter source 10485761 → readSource host' standardInputPath =
      .error ⟨"Error reading stdin: stream did not contain valid UTF-8", 1⟩) := by
  obtain ⟨hinside, houtside⟩ := readStandardInput_large hlarge
  rw [readSource_file hpath hfile, readSource_input hinput]
  refine ⟨?_, houtside, hinside⟩
  rw [readEntry, String.size_toByteArray]
  exact if_pos hlarge

/-- With one more byte in front the cut is between two characters. -/
theorem readSource_oversized_between_characters :
    let source := "x" ++ accents 5242881
    let host : Host := ⟨source.toByteArray, fun _ => .ok (.file source.toByteArray), false⟩
    "big.lum" ≠ standardInputPath ∧ source.utf8ByteSize = 10485763 ∧
      ¬InsideCharacter source 10485761 ∧ readSource host standardInputPath =
        .error ⟨"Input on stdin is too large (max 10485760 bytes)", 1⟩ := by
  intro source host
  have hpath : "big.lum" ≠ standardInputPath := by decide
  have hsize : source.utf8ByteSize = 10485763 := by
    rw [String.utf8ByteSize_append, utf8ByteSize_accents]
    rfl
  have houtside : ¬InsideCharacter source 10485761 :=
    fun hinside => hinside.2 (isBoundary_accents (k := 5242880) (by decide))
  clear_value source
  obtain ⟨-, hlarge, -⟩ := readSource_oversized host host "big.lum" source hpath rfl rfl
    (by omega)
  exact ⟨hpath, hsize, houtside, hlarge houtside⟩

/-- A text of 5242881 characters of two bytes each is too large, and is refused as no text. -/
theorem readSource_cut_inside_character :
    ¬∀ (host : Host) (source : String), host.standardInput = source.toByteArray →
      10485760 < source.utf8ByteSize → readSource host standardInputPath =
        .error ⟨"Input on stdin is too large (max 10485760 bytes)", 1⟩ := by
  intro hclaim
  have hsize : 10485760 < (accents 5242881).utf8ByteSize := by
    rw [utf8ByteSize_accents]
    decide
  have hinside : InsideCharacter (accents 5242881) 10485761 :=
    insideCharacter_accents (k := 5242880) (by decide)
  generalize accents 5242881 = source at hsize hinside
  have hrefused := hclaim ⟨source.toByteArray, fun _ => .error .notFound, false⟩ source rfl hsize
  rw [readSource_input rfl, (readStandardInput_large hsize).1 hinside] at hrefused
  have hmessages : "Error reading stdin: " ++ notText ≠
      "Input on stdin is too large (max 10485760 bytes)" := by decide
  exact hmessages (congrArg Failure.message (Except.error.inj hrefused))

end Gloss.CommandLine
