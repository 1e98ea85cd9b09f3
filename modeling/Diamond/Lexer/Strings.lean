import Mathlib.Data.Nat.Notation

/-!
# String literals

`scan_string` finds the end of a string literal. Inside an interpolation it counts braces, and it
jumps over a string there without looking for interpolations in it.  So it takes a string in an
interpolation of such a string for code, and it knows no regexps and comments.
-/

namespace Diamond.Lexer

/-- The loop of `scan_string` that is running: over the literal's own text, over an interpolation
at a brace depth, or over a string inside it. -/
inductive Mode where
  | text
  | code (depth : ℕ)
  | embedded (depth : ℕ)

/-- `scan_string`: what follows the token, if it is not an error. The list ends where the source
has its NUL. -/
def scanString : Mode → List Char → Option (List Char)
  | _, [] => none
  | .text, '"' :: rest => some rest
  | .text, '#' :: '{' :: rest => scanString (.code 1) rest
  | .text, '\\' :: _ :: rest => scanString .text rest
  | .text, _ :: rest => scanString .text rest
  | .code depth, '"' :: rest => scanString (.embedded depth) rest
  | .code depth, '{' :: rest => scanString (.code (depth + 1)) rest
  | .code depth, '}' :: rest => scanString (if depth ≤ 1 then .text else .code (depth - 1)) rest
  | .code depth, _ :: rest => scanString (.code depth) rest
  | .embedded depth, '"' :: rest => scanString (.code depth) rest
  | .embedded depth, '\\' :: _ :: rest => scanString (.embedded depth) rest
  | .embedded depth, _ :: rest => scanString (.embedded depth) rest

attribute [local simp] scanString

/-! ## Literals -/

/-- What stands between the quotes of a string, the slashes of a regexp, a hash and the end of its
line, or in an interpolation. -/
inductive Part where
  | string
  | regexp
  | comment
  | code

/-- How `scan_string` goes over a part; with `any` nothing is asked of it. -/
inductive Reading where
  | any
  | text
  | code
  | embedded

/-- The reading of an interpolation of a string. -/
def Reading.interpolation : Reading → Reading
  | .text => .code
  | reading => reading

/-- The reading of a string in an interpolation: the scanner jumps over it from code, and falls back
into code at a string inside it. -/
def Reading.literal : Reading → Reading
  | .code => .embedded
  | .embedded => .code
  | reading => reading

/-- The scanner passes the character without a change of its mode. -/
def Reading.Passes : Reading → Char → Prop
  | .code, c => c ∉ ['"', '{', '}']
  | .embedded, c => c ∉ ['"', '\\']
  | _, _ => True

/-- The scanner passes a backslash and the character without a change of its mode. -/
def Reading.PassesEscaped : Reading → Char → Prop
  | .code, c => c ∉ ['"', '{', '}']
  | _, _ => True

/-- The character stands for itself before the rest of the part. -/
def Part.Plain : Part → Char → List Char → Prop
  | .string, c, rest => c ∉ ['"', '\\'] ∧ (c = '#' → rest.head? ≠ some '{')
  | .regexp, c, _ => c ∉ ['/', '\\', '\n']
  | .comment, c, _ => c ≠ '\n'
  | .code, c, _ => c ∉ ['"', '\\', '{', '}']

/-- The character may stand behind a backslash. -/
def Part.Escapes : Part → Char → Prop
  | .comment, c => c ≠ '\n'
  | .code, _ => False
  | _, _ => True

/-- The contents of a part that the scanner reads in this way and passes from end to end. -/
inductive Content : Reading → Part → List Char → Prop
  | done {reading part} : Content reading part []
  | char {reading part c rest} (hplain : part.Plain c rest) (hpasses : reading.Passes c) :
      Content reading part rest → Content reading part (c :: rest)
  | escape {reading part c rest} (hescapes : part.Escapes c) (hpasses : reading.PassesEscaped c) :
      Content reading part rest → Content reading part ('\\' :: c :: rest)
  | interpolation {reading code rest} : Content reading.interpolation .code code →
      Content reading .string rest → Content reading .string ('#' :: '{' :: code ++ '}' :: rest)
  | braces {reading part inner rest} (hpart : part = .code ∨ reading = .code ∨ reading = .any) :
      Content reading part inner → Content reading part rest →
      Content reading part ('{' :: inner ++ '}' :: rest)
  | literal {reading inner rest} : Content reading.literal .string inner →
      Content reading .code rest → Content reading .code ('"' :: inner ++ '"' :: rest)
  | regexp {reading inner rest} : Content reading .regexp inner → Content reading .code rest →
      Content reading .code ('/' :: inner ++ '/' :: rest)
  | comment {reading inner rest} : Content reading .comment inner → Content reading .code rest →
      Content reading .code ('#' :: inner ++ '\n' :: rest)

variable {reading : Reading} {part : Part} {text : List Char}

/-- What is read in some way is a content. -/
lemma Content.any (h : Content reading part text) : Content .any part text := by
  induction h with
  | done => exact .done
  | char hplain _ _ ih => exact .char hplain trivial ih
  | escape hescapes _ _ ih => exact .escape hescapes trivial ih
  | interpolation _ _ ihcode ih => exact .interpolation ihcode ih
  | braces _ _ _ ihinner ih => exact .braces (.inr (.inr rfl)) ihinner ih
  | literal _ _ ihinner ih => exact .literal ihinner ih
  | regexp _ _ ihinner ih => exact .regexp ihinner ih
  | comment _ _ ihinner ih => exact .comment ihinner ih

/-- The scanner passes what it reads as code, and what it reads as a string inside code. -/
lemma Content.skips (h : Content reading part text) {depth : ℕ} (hdepth : 1 ≤ depth)
    (rest : List Char) :
    (reading = .code → scanString (.code depth) (text ++ rest) = scanString (.code depth) rest) ∧
    (reading = .embedded →
      scanString (.embedded depth) (text ++ rest) = scanString (.embedded depth) rest) := by
  have hne : depth ≠ 0 := Nat.ne_of_gt hdepth
  induction h generalizing depth rest with
  | done => exact ⟨fun _ => rfl, fun _ => rfl⟩
  | char _ hpasses _ ih =>
    refine ⟨?_, ?_⟩ <;> rintro rfl <;> simp [Reading.Passes] at hpasses <;>
      simp [hpasses, (ih hdepth rest hne)]
  | escape _ hpasses _ ih =>
    refine ⟨?_, ?_⟩ <;> rintro rfl
    · simp [Reading.PassesEscaped] at hpasses
      simp [hpasses, (ih hdepth rest hne).1]
    · simp [(ih hdepth rest hne).2]
  | interpolation _ _ ihcode ih =>
    refine ⟨?_, ?_⟩ <;> rintro rfl
    · simp [(ihcode (Nat.le_add_left 1 depth) _ (Nat.succ_ne_zero _)).1 rfl, hne,
        (ih hdepth rest hne).1]
    · simp [(ihcode hdepth _ hne).2 rfl, (ih hdepth rest hne).2]
  | braces _ _ _ ihinner ih =>
    refine ⟨?_, ?_⟩ <;> rintro rfl
    · simp [(ihinner (Nat.le_add_left 1 depth) _ (Nat.succ_ne_zero _)).1 rfl, hne,
        (ih hdepth rest hne).1]
    · simp [(ihinner hdepth _ hne).2 rfl, (ih hdepth rest hne).2]
  | literal _ _ ihinner ih =>
    refine ⟨?_, ?_⟩ <;> rintro rfl
    · simp [(ihinner hdepth _ hne).2 rfl, (ih hdepth rest hne).1]
    · simp [(ihinner hdepth _ hne).1 rfl, (ih hdepth rest hne).2]
  | regexp _ _ ihinner ih | comment _ _ ihinner ih =>
    refine ⟨?_, ?_⟩ <;> rintro rfl
    · simp [(ihinner hdepth _ hne).1 rfl, (ih hdepth rest hne).1]
    · simp [(ihinner hdepth _ hne).2 rfl, (ih hdepth rest hne).2]

lemma text_ends {rest} (h : Content reading part text) (hreading : reading = .text)
    (hpart : part = .string) : scanString .text (text ++ '"' :: rest) = some rest := by
  induction h with
  | done => rfl
  | @char _ _ c next hplain _ _ ih =>
    subst hpart
    obtain ⟨hspecial, hhash⟩ := hplain
    simp only [List.mem_cons, List.not_mem_nil, or_false, not_or] at hspecial
    rw [List.cons_append, scanString, ih hreading rfl]
    · exact hspecial.1
    · -- a hash opens an interpolation only before a brace, and the closing quote is none
      intro _ hc heq
      cases next with
      | nil => simp at heq
      | cons => exact hhash hc (congrArg List.head? heq)
    · exact fun _ _ hc _ => hspecial.2 hc
  | escape _ _ _ ih => simp [ih hreading hpart]
  | interpolation hcode _ _ ih =>
    subst hreading
    simp [(hcode.skips (Nat.le_refl 1) _).1 rfl, ih rfl rfl]
  | braces hbraces => simp_all
  | literal | regexp | comment => contradiction

/-- The token of a literal ends at the quote that matches its first one if the scanner, which counts
braces in interpolations and jumps there from quote to quote, passes its parts: at every second level
of nesting the strings have balanced braces and no escaped quotes, and regexps and comments in code
are like these. -/
theorem scanString_matches (text : List Char) (h : Content .text .string text) :
    Content .any .string text ∧ ∀ rest, scanString .text (text ++ '"' :: rest) = some rest :=
  ⟨h.any, fun _ => text_ends h rfl rfl⟩

/-- A string in a string in the literal, and a regexp with balanced braces. -/
theorem scanString_matches_nested :
    scanString .text ("#\x7b\"#\x7b\"q\"\x7d\" /a\x7b2\x7d/\x7d\" + x".toList) =
      some " + x".toList := by
  have hq : Content .code .string ['q'] :=
    .char (by simp [Part.Plain]) (by simp [Reading.Passes]) .done
  have hstring : Content .embedded .string ['#', '{', '"', 'q', '"', '}'] :=
    @Content.interpolation .embedded _ [] (@Content.literal .embedded _ [] hq .done) .done
  have htwo : Content .code .regexp ['2'] :=
    .char (by simp [Part.Plain]) (by simp [Reading.Passes]) .done
  have hregexp : Content .code .regexp ['a', '{', '2', '}'] :=
    .char (by simp [Part.Plain]) (by simp [Reading.Passes])
      (@Content.braces _ _ _ [] (.inr (.inl rfl)) htwo .done)
  have hrest : Content .code .code [' ', '/', 'a', '{', '2', '}', '/'] :=
    .char (by simp [Part.Plain]) (by simp [Reading.Passes])
      (@Content.regexp _ _ [] hregexp .done)
  have hcode : Content .code .code (_ ++ '"' :: _) := @Content.literal .code _ _ hstring hrest
  exact (scanString_matches _ (@Content.interpolation .text _ [] hcode .done)).2 " + x".toList

/-- A string holding a brace, in a string, in a string. -/
def nested : List Char := ['#', '{', '"', '#', '{', '"', '}', '"', '}', '"', '}']

lemma nested_content : Content .any .string nested := by
  have hbrace : Content .any .string ['}'] := .char (by simp [Part.Plain]) trivial .done
  have hinner : Content .any .string ['#', '{', '"', '}', '"', '}'] :=
    @Content.interpolation .any _ [] (@Content.literal .any _ [] hbrace .done) .done
  exact @Content.interpolation .any _ [] (@Content.literal .any _ [] hinner .done) .done

/-- The innermost brace ends the outer interpolation, and the next quote the token. -/
theorem scanString_ends_early : Content .any .string nested ∧
      scanString .text (nested ++ ['"']) = some ['}', '"', '}', '"'] :=
  ⟨nested_content, by simp [nested]⟩

end Diamond.Lexer
