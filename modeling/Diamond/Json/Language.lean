import Diamond.Json.Tokens

/-!
# The language of the parser

`json_parse_document` accepts exactly the JSON texts of the dialect `withAnyBytes`, and returns the
value that the text denotes.  The parsers of arrays and objects are treated over an arbitrary parser
for the values inside them (`Recognises`), and the nesting follows by induction on the levels.
-/

namespace Diamond.Json

open List Nat

open Codec (Bytes)
open Bignum (Digits isDigit)
open Hash (Key)

variable {text bytes : Bytes}

section
variable {F : Type} {strtod : Bytes → F} {length : ℕ}

/-! ## Containers -/

lemma whitespace_ends {c} (hc : isWhitespace c = true) :
    isDigit c = false ∧ c ≠ ascii '.' ∧ c ≠ ascii 'e' ∧ c ≠ ascii 'E' := by
  simp only [isWhitespace, Bool.or_eq_true, beq_iff_eq] at hc
  rcases hc with ((rfl | rfl) | rfl) | rfl <;> decide

variable {rest input : Bytes} {v : Value F} {fuel : ℕ} {vs : List (Value F)}

lemma ends_ws_append {w} (hw : Ws w) (hrest : Ends rest) : Ends (w ++ rest) := by
  cases w with
  | nil => exact hrest
  | cons c =>
    intro _ hc'
    obtain rfl := Option.some.inj hc'
    exact whitespace_ends (hw c mem_cons_self)

lemma ends_cons (x : Char) (rest : Bytes)
    (hx : isDigit (ascii x) = false ∧ ascii x ≠ ascii '.' ∧ ascii x ≠ ascii 'e' ∧
      ascii x ≠ ascii 'E') : Ends (ascii x :: rest) := by
  intro c hc
  obtain rfl := Option.some.inj hc
  exact hx

/-- A parser reads the texts of a predicate off the front of its input, after whitespace. -/
structure Recognises (parse : Bytes → Result (Value F × Bytes)) (value : Bytes → Value F → Prop) :
    Prop where
  skip : ∀ input, parse (jsonSkipWhitespace input) = parse input
  starts : ∀ {text v}, value text v →
    ∃ c text', text = c :: text' ∧ isWhitespace c = false ∧ c ≠ ascii ']'
  sound : ∀ {input v rest}, parse input = .ok (v, rest) →
    ∃ w text, Ws w ∧ value text v ∧ input = w ++ (text ++ rest)
  complete : ∀ {text v rest}, value text v → Ends rest → parse (text ++ rest) = .ok (v, rest)

lemma Separated.length_le {α : Type} {item : Bytes → α → Prop} {as : List α}
    (hitem : ∀ text a, item text a → text ≠ []) (h : Separated item text as) :
    as.length ≤ text.length := by
  induction h with
  | one ha => exact length_pos_iff.2 (hitem _ _ ha)
  | cons =>
    rw [length_cons, length_append, length_cons]
    omega

section
variable {parse : Bytes → Result (Value F × Bytes)} {value : Bytes → Value F → Prop}

lemma Element.bare {after} (h : value text v) (hafter : Ws after) :
    Element value (text ++ after) v := .padded (forall_mem_nil _) h hafter

variable (hp : Recognises parse value)
include hp

lemma Recognises.element (h : Element value text v) (hrest : Ends rest) :
    ∃ rest', parse (text ++ rest) = .ok (v, rest') ∧
      jsonSkipWhitespace rest' = jsonSkipWhitespace rest := by
  cases h with
  | @padded _ _ after _ hbefore htext hafter =>
    refine ⟨after ++ rest, ?_, skip_append hafter⟩
    rw [append_assoc, append_assoc, ← hp.skip, skip_append hbefore, hp.skip]
    exact hp.complete htext (ends_ws_append hafter hrest)

lemma arrayLoop_skip (fuel : ℕ) (values : List (Value F)) (input : Bytes) :
    arrayLoop parse fuel values (jsonSkipWhitespace input) = arrayLoop parse fuel values input := by
  cases fuel with
  | zero => rfl
  | succ => rw [arrayLoop, arrayLoop, hp.skip]

lemma arrayLoop_sound {values} (h : arrayLoop parse fuel values input = .ok (v, rest)) :
    ∃ text vs, Separated (Element value) text vs ∧ v = .array (values ++ vs) ∧
      input = text ++ ascii ']' :: rest := by
  induction fuel generalizing values input with
  | zero => simp [arrayLoop] at h
  | succ _ ih =>
    simp only [arrayLoop, bind_eq_ok, Prod.exists] at h
    obtain ⟨v', _, hvalue, h⟩ := h
    obtain ⟨w, text, hw, htext, rfl⟩ := hp.sound hvalue
    split at h
    case h_1 => simp at h
    case h_2 hskip =>
      obtain ⟨w', hw', rfl⟩ := eq_of_skip_eq hskip
      have helement : Element value (w ++ (text ++ w')) v' := .padded hw htext hw'
      split_ifs at h with hcomma hclose
      · rw [arrayLoop_skip hp] at h
        obtain ⟨_, vs, hvs, rfl, rfl⟩ := ih h
        refine ⟨_, _, .cons helement hvs, by simp, ?_⟩
        rw [hcomma]
        simp
      · cases h
        refine ⟨_, _, .one helement, rfl, ?_⟩
        rw [hclose]
        simp
      · simp at h

lemma arrayLoop_complete {values} (h : Separated (Element value) text vs)
    (hfuel : vs.length ≤ fuel) :
    arrayLoop parse fuel values (text ++ ascii ']' :: rest) = .ok (.array (values ++ vs), rest) := by
  induction h generalizing fuel values with
  | one helement =>
    obtain ⟨fuel, rfl⟩ := exists_eq_succ_of_ne_zero (Nat.ne_of_gt hfuel)
    obtain ⟨_, hread, hskip⟩ := hp.element helement (ends_cons ']' rest (by decide))
    rw [arrayLoop, hread, bind_ok]
    dsimp only
    rw [hskip, skip_cons (by decide)]
    dsimp only
    rw [if_neg (by decide), if_pos rfl]
  | @cons _ text' _ _ helement _ ih =>
    rw [length_cons] at hfuel
    obtain ⟨fuel, rfl⟩ := exists_eq_succ_of_ne_zero (Nat.ne_of_gt (zero_lt_of_lt hfuel))
    obtain ⟨_, hread, hskip⟩ :=
      hp.element helement (ends_cons ',' (text' ++ ascii ']' :: rest) (by decide))
    rw [append_assoc, cons_append, arrayLoop, hread, bind_ok]
    dsimp only
    rw [hskip, skip_cons (by decide)]
    dsimp only
    rw [if_pos rfl, arrayLoop_skip hp, ih (le_of_succ_le_succ hfuel), append_assoc]
    rfl

lemma Recognises.separated_element (h : Separated (Element value) text vs) :
    ∃ w c text', Ws w ∧ text = w ++ c :: text' ∧ isWhitespace c = false ∧ c ≠ ascii ']' ∧
      Separated (Element value) (c :: text') vs := by
  cases h with
  | one helement =>
    cases helement with
    | @padded before _ after _ hbefore htext hafter =>
      obtain ⟨c, text', rfl, hc, hclose⟩ := hp.starts htext
      refine ⟨before, c, text' ++ after, hbefore, rfl, hc, hclose, .one ?_⟩
      exact Element.bare htext hafter
  | @cons _ others _ _ helement hvs =>
    cases helement with
    | @padded before _ after _ hbefore htext hafter =>
      obtain ⟨c, text', rfl, hc, hclose⟩ := hp.starts htext
      refine ⟨before, c, text' ++ after ++ ascii ',' :: others, hbefore, by simp, hc, hclose, ?_⟩
      exact .cons (Element.bare htext hafter) hvs

lemma Recognises.element_ne_nil (text : Bytes) (v : Value F) (h : Element value text v) :
    text ≠ [] := by
  cases h with
  | padded _ htext =>
    obtain ⟨c, _, rfl, -, -⟩ := hp.starts htext
    simp

lemma jsonParseArrayBody_sound (h : jsonParseArrayBody parse input = .ok (v, rest)) :
    ∃ text, Container withAnyBytes value (ascii '[' :: text) v ∧ input = text ++ rest := by
  obtain ⟨w, hw, hinput⟩ := exists_ws_append_skip input
  simp only [jsonParseArrayBody] at h
  split_ifs at h with hclose
  · cases h
    refine ⟨_, .emptyArray hw, ?_⟩
    conv_lhs => rw [hinput, ← cons_head?_tail hclose]
    simp
  · rw [arrayLoop_skip hp] at h
    obtain ⟨text, _, hvs, rfl, rfl⟩ := arrayLoop_sound hp h
    exact ⟨_, .array hvs, by simp⟩

lemma jsonParseArrayBody_complete (h : Separated (Element value) text vs) :
    jsonParseArrayBody parse (text ++ ascii ']' :: rest) = .ok (.array vs, rest) := by
  obtain ⟨w, c, text', hw, rfl, hc, hclose, hvs⟩ := hp.separated_element h
  have hskip : jsonSkipWhitespace (w ++ c :: text' ++ ascii ']' :: rest) =
      c :: text' ++ ascii ']' :: rest := by
    rw [append_assoc, skip_append hw]
    exact skip_cons hc _
  have hfuel : vs.length ≤ (c :: text' ++ ascii ']' :: rest).length := by
    rw [length_append]
    exact (hvs.length_le hp.element_ne_nil).trans (Nat.le_add_right _ _)
  simp only [jsonParseArrayBody, hskip]
  rw [if_neg, arrayLoop_complete hp hvs hfuel, nil_append]
  exact fun heq => hclose (Option.some.inj heq)

end

lemma keyMatch_self (key : Bytes) :
    Hash.keyMatch Hash.hashValue Hash.valuesEqual (.string key) (.string key) = true := by
  have hequal : Hash.valuesEqual (.string key) (.string key) = true := beq_self_eq_true key
  rw [Hash.keyMatch, hequal, Bool.and_true, beq_self_eq_true]

lemma hashSet_hashSet (entries : List (Key × Value F)) (key : Bytes) (v v' : Value F) :
    hashSet (hashSet entries key v) key v' = hashSet entries key v' :=
  Hash.assocSet_assocSet _ (keyMatch_self key) entries v v'

lemma objectLoop_skip (parse : Bytes → Result (Value F × Bytes)) (fuel : ℕ)
    (entries : List (Key × Value F)) (input : Bytes) :
    objectLoop parse fuel entries (jsonSkipWhitespace input) =
      objectLoop parse fuel entries input := by
  cases fuel with
  | zero => rfl
  | succ => rw [objectLoop, objectLoop, skip_skip]

section
variable {parse : Bytes → Result (Value F × Bytes)} {value : Bytes → Value F → Prop}
  (hp : Recognises parse value)
include hp

variable {entries : List (Key × Value F)} {ms : List (Bytes × Value F)}

lemma objectLoop_sound (h : objectLoop parse fuel entries input = .ok (v, rest)) :
    ∃ text ms, Separated (Member withAnyBytes value) text ms ∧
      v = .hash (ms.foldl (fun entries m => hashSet entries m.1 m.2) entries) ∧
      input = text ++ ascii '\x7d' :: rest := by
  induction fuel generalizing entries input with
  | zero => simp [objectLoop] at h
  | succ _ ih =>
    rw [objectLoop] at h
    dsimp only at h
    split_ifs at h with hquote
    · simp at h
    simp only [bind_eq_ok, Prod.exists] at h
    obtain ⟨key, rest₁, hkey, h⟩ := h
    split_ifs at h with hcolon
    · simp at h
    simp only [bind_eq_ok, Prod.exists] at h
    obtain ⟨v', _, hvalue, h⟩ := h
    rw [not_not] at hquote hcolon
    -- the whitespace, the key, the colon and the value that were read
    obtain ⟨w, hw, hinput⟩ := exists_ws_append_skip input
    obtain ⟨w₁, hw₁, hrest₁⟩ := exists_ws_append_skip rest₁
    obtain ⟨keyText, hkeyText, hskip⟩ := jsonParseString_sound hquote hkey
    rw [hp.skip] at hvalue
    obtain ⟨w₂, text, hw₂, htext, htail⟩ := hp.sound hvalue
    rw [← cons_head?_tail hcolon, htail] at hrest₁
    rw [hskip, hrest₁] at hinput
    rw [hashSet_hashSet] at h
    split at h
    case h_1 => simp at h
    case h_2 hskip₂ =>
      obtain ⟨w₃, hw₃, rfl⟩ := eq_of_skip_eq hskip₂
      have hmember : Member withAnyBytes value
          (w ++ (keyText ++ (w₁ ++ ascii ':' :: (w₂ ++ (text ++ w₃))))) (key, v') :=
        .padded hw hkeyText hw₁ (.padded hw₂ htext hw₃)
      split_ifs at h with hcomma hclose
      · obtain ⟨_, ms, hms, rfl, rfl⟩ := ih h
        refine ⟨_, _, .cons hmember hms, rfl, ?_⟩
        rw [hinput, hcomma]
        simp
      · cases h
        refine ⟨_, _, .one hmember, rfl, ?_⟩
        rw [hinput, hclose]
        simp
      · simp at h

lemma objectLoop_member {m c} (h : Member withAnyBytes value text m)
    (hc : isWhitespace c = false) (hrest : Ends (c :: rest)) :
    objectLoop parse (fuel + 1) entries (text ++ c :: rest) =
      if c = ascii ',' then objectLoop parse fuel (hashSet entries m.1 m.2) rest
      else if c = ascii '\x7d' then .ok (.hash (hashSet entries m.1 m.2), rest)
      else fail "expected ',' or '\x7d' in object" := by
  cases h with
  | @padded before key after text _ _ hbefore hkey hafter hvalue =>
    obtain ⟨_, hread, hskip⟩ := hp.element hvalue hrest
    rw [skip_cons hc] at hskip
    have hinput : before ++ (key ++ (after ++ ascii ':' :: text)) ++ c :: rest =
        before ++ (key ++ (after ++ ascii ':' :: (text ++ c :: rest))) := by simp
    have hquote : jsonSkipWhitespace (before ++ (key ++ (after ++ ascii ':' :: (text ++ c :: rest)))) =
        key ++ (after ++ ascii ':' :: (text ++ c :: rest)) := by
      rw [skip_append hbefore]
      cases hkey with
      | quoted => exact skip_cons (by decide) _
    have hhead : (key ++ (after ++ ascii ':' :: (text ++ c :: rest))).head? = some (ascii '"') := by
      cases hkey with
      | quoted => rfl
    rw [hinput, objectLoop]
    dsimp only
    rw [hquote, if_neg (not_not.2 hhead), jsonParseString_complete hkey, bind_ok]
    dsimp only
    rw [skip_append hafter, skip_cons (by decide), if_neg (not_not.2 head?_cons),
      tail_cons, hp.skip, hread, bind_ok]
    dsimp only
    rw [hskip, hashSet_hashSet]

lemma objectLoop_complete (h : Separated (Member withAnyBytes value) text ms)
    (hfuel : ms.length ≤ fuel) : objectLoop parse fuel entries (text ++ ascii '\x7d' :: rest) =
      .ok (.hash (ms.foldl (fun entries m => hashSet entries m.1 m.2) entries), rest) := by
  induction h generalizing fuel entries with
  | one hmember =>
    obtain ⟨fuel, rfl⟩ := exists_eq_succ_of_ne_zero (Nat.ne_of_gt hfuel)
    rw [objectLoop_member hp hmember (by decide) (ends_cons _ rest (by decide)),
      if_neg (by decide), if_pos rfl]
    rfl
  | @cons _ _ _ _ hmember _ ih =>
    rw [length_cons] at hfuel
    obtain ⟨fuel, rfl⟩ := exists_eq_succ_of_ne_zero (Nat.ne_of_gt (zero_lt_of_lt hfuel))
    rw [append_assoc, cons_append,
      objectLoop_member hp hmember (by decide) (ends_cons _ _ (by decide)), if_pos rfl,
      ih (le_of_succ_le_succ hfuel)]
    rfl

lemma jsonParseObjectBody_sound (h : jsonParseObjectBody parse input = .ok (v, rest)) :
    ∃ text, Container withAnyBytes value (ascii '\x7b' :: text) v ∧ input = text ++ rest := by
  obtain ⟨w, hw, hinput⟩ := exists_ws_append_skip input
  simp only [jsonParseObjectBody] at h
  split_ifs at h with hclose
  · cases h
    refine ⟨_, .emptyObject hw, ?_⟩
    conv_lhs => rw [hinput, ← cons_head?_tail hclose]
    simp
  · rw [objectLoop_skip] at h
    obtain ⟨text, _, hms, rfl, rfl⟩ := objectLoop_sound hp h
    exact ⟨_, .object hms, by simp⟩

omit hp in
lemma separated_member (h : Separated (Member withAnyBytes value) text ms) :
    ∃ w text', Ws w ∧ text = w ++ ascii '"' :: text' ∧
      Separated (Member withAnyBytes value) (ascii '"' :: text') ms := by
  cases h with
  | one hmember =>
    cases hmember with
    | padded hbefore hkey hafter hvalue =>
      cases hkey with
      | quoted hname =>
        exact ⟨_, _, hbefore, rfl, .one (.padded (forall_mem_nil _) (.quoted hname) hafter hvalue)⟩
  | @cons _ others _ _ hmember hms =>
    cases hmember with
    | @padded before _ after text _ _ hbefore hkey hafter hvalue =>
      cases hkey with
      | @quoted chars _ hname =>
        refine ⟨before, chars ++ [ascii '"'] ++ (after ++ ascii ':' :: text) ++
          ascii ',' :: others, hbefore, by simp, ?_⟩
        exact .cons (.padded (forall_mem_nil _) (.quoted hname) hafter hvalue) hms

lemma jsonParseObjectBody_complete (h : Separated (Member withAnyBytes value) text ms) :
    jsonParseObjectBody parse (text ++ ascii '\x7d' :: rest) = .ok (.hash (hashOf ms), rest) := by
  obtain ⟨w, text', hw, rfl, hms⟩ := separated_member h
  have hskip : jsonSkipWhitespace (w ++ ascii '"' :: text' ++ ascii '\x7d' :: rest) =
      ascii '"' :: text' ++ ascii '\x7d' :: rest := by
    rw [append_assoc, skip_append hw]
    exact skip_cons (by decide) _
  have hmember : ∀ text m, Member withAnyBytes value text m → text ≠ [] := by
    intro text m hm
    cases hm with
    | padded => simp
  have hfuel : ms.length ≤ (ascii '"' :: text' ++ ascii '\x7d' :: rest).length := by
    rw [length_append]
    exact (hms.length_le hmember).trans (Nat.le_add_right _ _)
  simp only [jsonParseObjectBody, hskip]
  rw [if_neg, objectLoop_complete hp hms hfuel]
  · rfl
  · exact fun heq => absurd (Option.some.inj heq) (by decide)

end

/-! ## Values -/

lemma parseValueWith_skip (element : Option (Bytes → Result (Value F × Bytes))) (input : Bytes) :
    parseValueWith strtod length element (jsonSkipWhitespace input) =
      parseValueWith strtod length element input := by
  rw [parseValueWith, parseValueWith, skip_skip]

lemma scalar_starts (h : Scalar strtod withAnyBytes text v) :
    ∃ c text', text = c :: text' ∧ isWhitespace c = false ∧ c ≠ ascii ']' := by
  cases h with
  | null | true | false => exact ⟨_, _, rfl, by decide, by decide⟩
  | string htext =>
    cases htext with
    | quoted => exact ⟨_, _, rfl, by decide, by decide⟩
  | number hnumber =>
    obtain ⟨c, tail, rfl, hc⟩ := number_head hnumber
    exact ⟨c, tail, rfl, number_not_whitespace hc, starts_ne hc _ (by decide)⟩

lemma recognises_scalar :
    Recognises (parseValueWith strtod length none) (Scalar strtod withAnyBytes) where
  skip := parseValueWith_skip none
  starts := scalar_starts
  sound := by
    intro input v _ h
    cases hskip : jsonSkipWhitespace input with
    | nil =>
      rw [parseValueWith, hskip] at h
      simp at h
    | cons ch =>
      obtain ⟨w, hw, rfl⟩ := eq_of_skip_eq hskip
      have hparse := h
      rw [parseValueWith, hskip] at hparse
      dsimp only at hparse
      by_cases hobject : ch = ascii '\x7b'
      · rw [if_pos hobject] at hparse
        cases hparse
      by_cases harray : ch = ascii '['
      · rw [if_neg hobject, if_pos harray] at hparse
        cases hparse
      obtain ⟨text, htext, heq⟩ := parseValueWith_sound_scalar hskip hobject harray h
      exact ⟨w, text, hw, htext, by rw [heq]⟩
  complete := parseValueWith_scalar

lemma recognises_container {parse value} (hp : Recognises parse value) :
    Recognises (parseValueWith strtod length (some parse))
      (fun text v => Scalar strtod withAnyBytes text v ∨ Container withAnyBytes value text v) where
  skip := parseValueWith_skip (some parse)
  starts := by
    rintro text v (h | h)
    · exact scalar_starts h
    · cases h <;> exact ⟨_, _, rfl, by decide, by decide⟩
  sound := by
    intro input v _ h
    cases hskip : jsonSkipWhitespace input with
    | nil =>
      rw [parseValueWith, hskip] at h
      simp at h
    | cons ch =>
      obtain ⟨w, hw, rfl⟩ := eq_of_skip_eq hskip
      have hparse := h
      rw [parseValueWith, hskip] at hparse
      dsimp only at hparse
      by_cases hobject : ch = ascii '\x7b'
      · rw [if_pos hobject] at hparse
        obtain ⟨text, htext, rfl⟩ := jsonParseObjectBody_sound hp hparse
        exact ⟨w, _, hw, .inr htext, by rw [hobject]; rfl⟩
      by_cases harray : ch = ascii '['
      · rw [if_neg hobject, if_pos harray] at hparse
        obtain ⟨text, htext, rfl⟩ := jsonParseArrayBody_sound hp hparse
        exact ⟨w, _, hw, .inr htext, by rw [harray]; rfl⟩
      obtain ⟨text, htext, heq⟩ := parseValueWith_sound_scalar hskip hobject harray h
      exact ⟨w, text, hw, .inl htext, by rw [heq]⟩
  complete := by
    rintro text v _ (h | h) hrest
    · exact parseValueWith_scalar h hrest
    have hobject : ∀ tail, parseValueWith strtod length (some parse) (ascii '\x7b' :: tail) =
        jsonParseObjectBody parse tail := by
      intro tail
      rw [parseValueWith, skip_cons (by decide)]
      rfl
    have harray : ∀ tail, parseValueWith strtod length (some parse) (ascii '[' :: tail) =
        jsonParseArrayBody parse tail := by
      intro tail
      rw [parseValueWith, skip_cons (by decide)]
      rfl
    cases h with
    | @emptyArray _ hws =>
      rw [cons_append, harray, append_assoc, jsonParseArrayBody, skip_append hws,
        singleton_append, skip_cons (by decide)]
      rfl
    | array hvs =>
      rw [cons_append, harray, append_assoc]
      exact jsonParseArrayBody_complete hp hvs
    | @emptyObject _ hws =>
      rw [cons_append, hobject, append_assoc, jsonParseObjectBody, skip_append hws,
        singleton_append, skip_cons (by decide)]
      rfl
    | object hms =>
      rw [cons_append, hobject, append_assoc]
      exact jsonParseObjectBody_complete hp hms

/-- `json_parse_value` reads the values with at most as many levels as are left. -/
lemma recognises_value (levels : ℕ) :
    Recognises (jsonParseValue strtod length levels) (IsValue strtod withAnyBytes levels) := by
  induction levels with
  | zero => exact recognises_scalar
  | succ _ ih => exact recognises_container ih

lemma jsonParseDocument_eq_ok {source} :
    jsonParseDocument strtod source = .ok v ↔ Document strtod withAnyBytes source v := by
  have hp : Recognises (jsonParseValue strtod source.length maxCallDepth)
      (IsValue strtod withAnyBytes maxCallDepth) := recognises_value maxCallDepth
  rw [jsonParseDocument, bind_eq_ok, Prod.exists]
  constructor
  · rintro ⟨_, rest, hparse, h⟩
    obtain ⟨w, _, hw, htext, heq⟩ := hp.sound hparse
    dsimp only at h
    split_ifs at h with hrest
    · simp at h
    obtain rfl := Except.ok.inj h
    have hws : Ws rest := by
      obtain ⟨_, hw', hsplit⟩ := exists_ws_append_skip rest
      rw [not_not.1 hrest, append_nil] at hsplit
      rwa [hsplit]
    rw [heq]
    exact .padded hw htext hws
  · intro h
    have hend : Ends [] := nofun
    obtain ⟨rest, hparse, hskip⟩ := hp.element h hend
    rw [append_nil] at hparse
    refine ⟨v, rest, hparse, ?_⟩
    dsimp only
    rw [hskip]
    rfl

/-! ## Dialects -/

lemma Characters.append {d text' bytes'} (h : Characters d text bytes)
    (h' : Characters d text' bytes') : Characters d (text ++ text') (bytes ++ bytes') := by
  induction h with
  | nil => exact h'
  | cons hcharacter _ ih =>
    rw [append_assoc, append_assoc]
    exact .cons hcharacter ih

/-- A dialect has the texts of another when it has its numbers and its characters. -/
structure Dialect.Relaxes (d' d : Dialect) : Prop where
  leadingZeros : d.leadingZeros → d'.leadingZeros
  raw : ∀ text, d.raw text → Characters d' text text

section
variable {d d' : Dialect} (hd : d'.Relaxes d)
include hd

lemma Dialect.Relaxes.character (h : Character d text bytes) : Characters d' text bytes := by
  have hone : ∀ {text bytes : Bytes}, Character d' text bytes → Characters d' text bytes := by
    intro text bytes h
    have hcons := Characters.cons h .nil
    rwa [append_nil, append_nil] at hcons
  cases h with
  | raw h => exact hd.raw _ h
  | escape h => exact hone (.escape h)
  | unicode htext hcode => exact hone (.unicode htext hcode)
  | pair htext hlo hhi htext' hlo' hhi' => exact hone (.pair htext hlo hhi htext' hlo' hhi')

lemma Dialect.Relaxes.stringText (h : StringText d text bytes) : StringText d' text bytes := by
  cases h with
  | quoted hcharacters =>
    apply StringText.quoted
    induction hcharacters with
    | nil => exact .nil
    | cons hcharacter _ ih => exact (hd.character hcharacter).append ih

lemma Dialect.Relaxes.integer (h : Integer d text) : Integer d' text :=
  ⟨h.digits, h.leading.imp_left hd.leadingZeros⟩

lemma Dialect.Relaxes.scalar (h : Scalar strtod d text v) : Scalar strtod d' text v := by
  cases h with
  | null => exact .null
  | true => exact .true
  | false => exact .false
  | string htext => exact .string (hd.stringText htext)
  | number hnumber =>
    apply Scalar.number
    cases hnumber with
    | int htext hraw => exact .int (hd.integer htext) hraw
    | float htext hf he hfloat => exact .float (hd.integer htext) hf he hfloat

omit hd in
lemma Separated.imp {α : Type} {item item' : Bytes → α → Prop} {as : List α}
    (hitem : ∀ text a, item text a → item' text a) (h : Separated item text as) :
    Separated item' text as := by
  induction h with
  | one ha => exact .one (hitem _ _ ha)
  | cons ha _ ih => exact .cons (hitem _ _ ha) ih

omit hd in
lemma Element.imp {value value'}
    (hvalue : ∀ text v, value text v → value' text v) (text : Bytes) (v : Value F)
    (h : Element value text v) : Element value' text v := by
  cases h with
  | padded hbefore htext hafter => exact .padded hbefore (hvalue _ _ htext) hafter

lemma Dialect.Relaxes.container {value value'}
    (hvalue : ∀ text v, value text v → value' text v) (h : Container d value text v) :
    Container d' value' text v := by
  cases h with
  | emptyArray hws => exact .emptyArray hws
  | array hvs => exact .array (hvs.imp (.imp hvalue))
  | emptyObject hws => exact .emptyObject hws
  | object hms =>
    refine .object (hms.imp fun text m hm => ?_)
    cases hm with
    | padded hbefore hkey hafter helement =>
      exact .padded hbefore (hd.stringText hkey) hafter (helement.imp hvalue)

lemma Dialect.Relaxes.value (levels : ℕ) (text : Bytes) (v : Value F)
    (h : IsValue strtod d levels text v) : IsValue strtod d' levels text v := by
  induction levels generalizing text v with
  | zero => exact hd.scalar h
  | succ _ ih =>
    rcases h with h | h
    · exact .inl (hd.scalar h)
    · exact .inr (hd.container ih h)

lemma Dialect.Relaxes.document {source} (h : Document strtod d source v) :
    Document strtod d' source v := h.imp (hd.value maxCallDepth)

section
omit hd

/-- The bytes of an encoded character: the character itself, or bytes that are no ASCII. -/
lemma mem_utf8EncodeChar {c byte} (h : byte ∈ String.utf8EncodeChar c) :
    byte.toNat = c.toNat ∧ c.toNat < 0x80 ∨ 0x80 ≤ byte.toNat ∧ byte.toNat < 0xF8 := by
  have hval : c.toNat = c.val.toNat := rfl
  rw [String.utf8EncodeChar] at h
  split_ifs at h with h1 h2 h3
  all_goals
    simp only [mem_cons, not_mem_nil, or_false] at h
  · rw [h, UInt8.toNat_ofNat']
    omega
  · rcases h with rfl | rfl <;> rw [UInt8.toNat_ofNat'] <;> omega
  · rcases h with rfl | rfl | rfl <;> rw [UInt8.toNat_ofNat'] <;> omega
  · rcases h with rfl | rfl | rfl | rfl <;> rw [UInt8.toNat_ofNat'] <;> omega

lemma characters_of_bytes (h : ∀ byte ∈ text, byte ≠ ascii '"' ∧ byte ≠ ascii '\\') :
    Characters withAnyBytes text text := by
  induction text with
  | nil => exact .nil
  | cons byte _ ih =>
    obtain ⟨hbyte, htext⟩ := forall_mem_cons.1 h
    have hraw : withAnyBytes.raw [byte] := ⟨byte, hbyte.1, hbyte.2, rfl⟩
    exact .cons (.raw hraw) (ih htext)

lemma withAnyBytes_relaxes : withAnyBytes.Relaxes withControlBytes where
  leadingZeros := id
  raw := by
    have hne : ∀ {c : Char} {byte : UInt8} (x : Char), c ≠ x → x.toNat < 0x80 →
        byte ∈ String.utf8EncodeChar c → byte ≠ ascii x := by
      rintro c byte x hcx hx hbyte rfl
      have hascii : (ascii x).toNat = x.toNat := by
        show (UInt8.ofNat x.toNat).toNat = x.toNat
        rw [UInt8.toNat_ofNat']
        omega
      have hmem := mem_utf8EncodeChar hbyte
      exact hcx (Char.toNat_inj.1 (by omega))
    rintro _ (⟨c, -, hquote, hbackslash, rfl⟩ | ⟨byte, hbyte, rfl⟩)
    · exact characters_of_bytes fun byte hbyte =>
        ⟨hne '"' hquote (by decide) hbyte, hne '\\' hbackslash (by decide) hbyte⟩
    refine characters_of_bytes (forall_mem_singleton.2 ⟨?_, ?_⟩)
    all_goals
      rintro rfl
      exact absurd hbyte (by decide)

lemma withControlBytes_relaxes : withControlBytes.Relaxes rfc8259 where
  leadingZeros := False.elim
  raw := by
    intro text h
    have hcons := Characters.cons (d := withControlBytes) (.raw (.inl h)) .nil
    rwa [append_nil] at hcons

end

end

/-- A byte string is accepted exactly when it is one JSON value of RFC 8259 within the nesting limit
with whitespace around it, where numbers may have leading zeros and any bytes but the quote and the
backslash stand for themselves inside strings. -/
theorem accepted_iff_json (strtod : Bytes → F) (source : Bytes) :
    (∃ v, jsonParseDocument strtod source = .ok v) ↔
      ∃ v, Document strtod withAnyBytes source v := by
  constructor
  · rintro ⟨v, h⟩
    exact ⟨v, jsonParseDocument_eq_ok.1 h⟩
  · rintro ⟨v, h⟩
    exact ⟨v, jsonParseDocument_eq_ok.2 h⟩

end

lemma stringText_of_isValue {F : Type} {strtod : Bytes → F} {d levels}
    (h : IsValue strtod d levels text (.string bytes)) : StringText d text bytes := by
  have hscalar : Scalar strtod d text (.string bytes) := by
    cases levels with
    | zero => exact h
    | succ =>
      rcases h with h | h
      · exact h
      · cases h
  cases hscalar with
  | string htext => exact htext
  | number hnumber => cases hnumber

/-- No character starts with the byte `0xFF`, which occurs in no UTF-8 encoding. -/
lemma character_head_ne (h : Character withControlBytes text bytes) :
    text ≠ [] ∧ text.head? ≠ some 0xFF := by
  cases h with
  | raw h =>
    rcases h with ⟨c, -, -, -, rfl⟩ | ⟨byte, hbyte, rfl⟩
    · refine ⟨?_, fun hhead => ?_⟩
      · rw [Ne, ← length_eq_zero_iff, String.length_utf8EncodeChar]
        exact c.utf8Size_pos.ne'
      · have hmem := mem_utf8EncodeChar (mem_of_head? hhead)
        have hbyte : (0xFF : UInt8).toNat = 0xFF := rfl
        omega
    · refine ⟨cons_ne_nil _ _, fun hhead => ?_⟩
      obtain rfl := Option.some.inj hhead
      exact absurd hbyte (by decide)
  | escape | unicode | pair =>
    exact ⟨cons_ne_nil _ _, fun hhead => absurd (Option.some.inj hhead) (by decide)⟩

/-- A string of the byte `0xFF` is accepted, but with control bytes as the only bytes that RFC 8259
does not have it is no JSON text: `0xFF` occurs in no UTF-8 encoding. -/
theorem non_utf8_string_accepted :
    (∃ v : Value Unit, jsonParseDocument (fun _ => ()) [0x22, 0xFF, 0x22] = .ok v) ∧
      ¬∃ v : Value Unit, Document (fun _ => ()) withControlBytes [0x22, 0xFF, 0x22] v := by
  have haccepted : jsonParseDocument (fun _ => ()) [0x22, 0xFF, 0x22] = .ok (.string [0xFF]) := rfl
  refine ⟨⟨_, haccepted⟩, ?_⟩
  rintro ⟨v, h⟩
  have hv := jsonParseDocument_eq_ok.2 (withAnyBytes_relaxes.document h)
  rw [haccepted] at hv
  obtain rfl := Except.ok.inj hv
  generalize hsource : ([0x22, 0xFF, 0x22] : Bytes) = source at h
  cases h with
  | @padded before text _ _ hbefore htext _ =>
    cases stringText_of_isValue htext with
    | @quoted text _ hcharacters =>
      cases before with
      | cons =>
        -- the quote is no whitespace
        obtain ⟨rfl, -⟩ := List.cons.inj hsource
        exact absurd (hbefore 0x22 List.mem_cons_self) (by decide)
      | nil =>
        obtain ⟨-, hrest⟩ := List.cons.inj hsource
        clear hv haccepted htext
        generalize ([0xFF] : Bytes) = bytes at hcharacters
        cases hcharacters with
        | nil => exact absurd (List.cons.inj hrest).1 (by decide)
        | cons hcharacter =>
          obtain ⟨hne, hhead⟩ := character_head_ne hcharacter
          obtain ⟨c, text, rfl⟩ := List.exists_cons_of_ne_nil hne
          exact hhead (congrArg some (List.cons.inj hrest).1.symm)

end Diamond.Json
