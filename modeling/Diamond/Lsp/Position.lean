import Mathlib.Tactic

/-!
# Columns in bytes and in UTF-16 code units

A line is the list of its bytes.  Well-formed UTF-8 is what `utf8` gives for some characters, and
its character boundaries are where the encodings of the first of them end.
-/

namespace Diamond.Lsp

open List

/-- What the loop of `lsp_utf16_from_bytes` adds for a byte: nothing for a continuation byte. -/
def byteUnits (byte : UInt8) : ℕ :=
  if byte &&& 0xC0 = 0x80 then 0 else if byte ≥ 0xF0 then 2 else 1

def lspUtf16FromBytes (line : List UInt8) (byteCount : ℕ) : ℕ :=
  ((line.take byteCount).map byteUnits).sum + (byteCount - line.length)

/-- The length of a sequence and its code units, as its first byte has them. -/
def sequenceWidth (byte : UInt8) : ℕ × ℕ :=
  if byte ≥ 0xF0 then (4, 2) else if byte ≥ 0xE0 then (3, 1) else if byte ≥ 0xC0 then (2, 1)
  else (1, 1)

/-- The loop of `lsp_bytes_from_utf16`, over the bytes from `index` on. -/
def bytesLoop (utf16 : ℕ) : (rest : List UInt8) → (units index : ℕ) → ℕ
  | [], _, index => index
  | byte :: rest, units, index =>
    let (sequence, width) := sequenceWidth byte
    if units + width > utf16 then index
    else bytesLoop utf16 (rest.drop (sequence - 1)) (units + width) (index + sequence)
  termination_by rest => rest.length

def lspBytesFromUtf16 (line : List UInt8) (utf16 : ℕ) : ℕ :=
  min (bytesLoop utf16 line 0 0) line.length

def utf8 (chars : List Char) : List UInt8 := chars.flatMap String.utf8EncodeChar

/-- A character outside the basic plane is a surrogate pair. -/
def utf16Size (c : Char) : ℕ := if c.val.toNat ≤ 0xFFFF then 1 else 2

def utf16Length (chars : List Char) : ℕ := (chars.map utf16Size).sum

lemma utf8_append (before after : List Char) :
    utf8 (before ++ after) = utf8 before ++ utf8 after := flatMap_append

lemma utf16Size_pos (c : Char) : 0 < utf16Size c := by
  unfold utf16Size
  split <;> decide

/-- The first byte of a sequence of that length and width. -/
abbrev Leads (byte : UInt8) (sequence width : ℕ) : Prop :=
  sequenceWidth byte = (sequence, width) ∧ byteUnits byte = width

lemma leads_ofNat : (∀ n < 128, Leads (.ofNat n) 1 1) ∧ (∀ n < 32, Leads (.ofNat (n + 192)) 2 1) ∧
    (∀ n < 16, Leads (.ofNat (n + 224)) 3 1) ∧ ∀ n < 8, Leads (.ofNat (n + 240)) 4 2 := by
  decide

lemma continuation_ofNat : ∀ n < 64, byteUnits (.ofNat (n + 128)) = 0 := by
  decide

lemma encode_spec (c : Char) : ∃ lead tail, String.utf8EncodeChar c = lead :: tail ∧
    Leads lead (tail.length + 1) (utf16Size c) ∧ (tail.map byteUnits).sum = 0 := by
  have hrest (n : ℕ) := continuation_ofNat (n % 64) (Nat.mod_lt _ (by decide))
  obtain ⟨hone, htwo, hthree, hfour⟩ := leads_ofNat
  rw [String.utf8EncodeChar, utf16Size]
  split_ifs
  · exact ⟨_, _, rfl, hone _ (by omega), rfl⟩
  · omega
  · exact ⟨_, _, rfl, htwo _ (Nat.mod_lt _ (by decide)), by simp only [map, hrest]; rfl⟩
  · omega
  · exact ⟨_, _, rfl, hthree _ (Nat.mod_lt _ (by decide)), by simp only [map, hrest]; rfl⟩
  · exact ⟨_, _, rfl, hfour _ (Nat.mod_lt _ (by decide)), by simp only [map, hrest]; rfl⟩

lemma sum_utf8 (chars : List Char) : ((utf8 chars).map byteUnits).sum = utf16Length chars := by
  induction chars with
  | nil => rfl
  | cons c chars ih =>
    obtain ⟨lead, tail, hencode, ⟨-, hlead⟩, htail⟩ := encode_spec c
    rw [utf8] at ih
    simp [utf8, utf16Length, hencode, hlead, htail, ih]

variable {chars before : List Char}

lemma column_of_start (h : before <+: chars) :
    lspUtf16FromBytes (utf8 chars) (utf8 before).length = utf16Length before := by
  obtain ⟨after, rfl⟩ := h
  rw [lspUtf16FromBytes, utf8_append, take_left, sum_utf8]
  simp

/-- The longest start of the characters that still fits after some code units. -/
structure Longest (utf16 units : ℕ) (chars before : List Char) : Prop where
  start : before <+: chars
  fits : units + utf16Length before ≤ utf16
  last : ∀ other, other <+: chars → units + utf16Length other ≤ utf16 → other <+: before

lemma bytesLoop_utf8 {utf16} (chars : List Char) {units} (hunits : units ≤ utf16) (index : ℕ) :
    ∃ before, Longest utf16 units chars before ∧
      bytesLoop utf16 (utf8 chars) units index = index + (utf8 before).length := by
  -- `units` and `index` are where the characters read so far end.
  induction chars generalizing units index with
  | nil => exact ⟨[], ⟨prefix_rfl, hunits, fun _ h _ => h⟩, by rw [utf8, flatMap_nil, bytesLoop]; rfl⟩
  | cons c chars ih =>
    obtain ⟨lead, tail, hencode, ⟨hwidth, -⟩, -⟩ := encode_spec c
    have hcons : ∀ l, units + utf16Length (c :: l) = units + utf16Size c + utf16Length l :=
      fun _ => (Nat.add_assoc ..).symm
    rw [utf8, flatMap_cons, hencode, cons_append, bytesLoop, hwidth]
    dsimp only
    split
    case isTrue hwide =>
      refine ⟨[], ⟨⟨_, rfl⟩, hunits, fun other hother hfits => ?_⟩, rfl⟩
      rcases prefix_cons_iff.1 hother with rfl | ⟨_, rfl, -⟩
      · exact prefix_rfl
      · rw [hcons] at hfits
        omega
    case isFalse hfits =>
      rw [Nat.add_sub_cancel, drop_left, ← utf8]
      obtain ⟨before, hlongest, hloop⟩ := ih (Nat.not_lt.1 hfits) _
      refine ⟨c :: before, ⟨?_, hcons _ ▸ hlongest.fits, fun other hother hfits => ?_⟩, ?_⟩
      · exact prefix_cons_iff.2 (.inr ⟨_, rfl, hlongest.start⟩)
      · rcases prefix_cons_iff.1 hother with rfl | ⟨other, rfl, h⟩
        · exact nil_prefix
        · exact prefix_cons_iff.2 (.inr ⟨_, rfl, hlongest.last other h (hcons _ ▸ hfits)⟩)
      · rw [hloop, utf8, utf8, flatMap_cons, hencode, length_append, length_cons, Nat.add_assoc]

lemma lspBytesFromUtf16_utf8 (chars : List Char) (utf16 : ℕ) :
    ∃ before, Longest utf16 0 chars before ∧
      lspBytesFromUtf16 (utf8 chars) utf16 = (utf8 before).length := by
  obtain ⟨before, hlongest, hloop⟩ := bytesLoop_utf8 chars (Nat.zero_le utf16) 0
  obtain ⟨after, rfl⟩ := hlongest.start
  refine ⟨before, hlongest, ?_⟩
  rw [lspBytesFromUtf16, hloop]
  simp [utf8_append]

def IsBoundary (chars : List Char) (offset : ℕ) : Prop :=
  ∃ before, before <+: chars ∧ (utf8 before).length = offset

/-- At a boundary the column is the number of code units before it and leads back to it, and a
column leads to the last boundary that is not behind it. -/
theorem utf16_columns (chars : List Char) :
    (∀ before, before <+: chars →
      lspUtf16FromBytes (utf8 chars) (utf8 before).length = utf16Length before) ∧
    (∀ offset, IsBoundary chars offset →
      lspBytesFromUtf16 (utf8 chars) (lspUtf16FromBytes (utf8 chars) offset) = offset) ∧
    ∀ utf16, IsGreatest {offset | IsBoundary chars offset ∧
      lspUtf16FromBytes (utf8 chars) offset ≤ utf16} (lspBytesFromUtf16 (utf8 chars) utf16) := by
  refine ⟨fun _ => column_of_start, ?_, fun utf16 => ?_⟩
  · rintro _ ⟨other, hother, rfl⟩
    rw [column_of_start hother]
    obtain ⟨before, hlongest, hbytes⟩ := lspBytesFromUtf16_utf8 chars (utf16Length other)
    obtain ⟨more, rfl⟩ := hlongest.last other hother (Nat.zero_add _).le
    cases more with
    | nil => rw [hbytes, append_nil]
    | cons c more =>
      have hfits := hlongest.fits
      have hpos := utf16Size_pos c
      simp only [utf16Length, map_append, map_cons, sum_append, sum_cons] at hfits
      omega
  · obtain ⟨before, hlongest, hbytes⟩ := lspBytesFromUtf16_utf8 chars utf16
    rw [hbytes]
    have hfits := hlongest.fits
    rw [Nat.zero_add, ← column_of_start hlongest.start] at hfits
    refine ⟨⟨⟨before, hlongest.start, rfl⟩, hfits⟩, ?_⟩
    rintro _ ⟨⟨other, hother, rfl⟩, hfits⟩
    rw [column_of_start hother, ← Nat.zero_add (utf16Length _)] at hfits
    obtain ⟨more, rfl⟩ := hlongest.last other hother hfits
    simp [utf8_append]

end Diamond.Lsp
