import Diamond.Json.Language
import Diamond.Json.Stringify

/-!
# Parsing what was written

Both sides work level by level, so the proof is one induction on the levels left; with
`sort_keys` the value read back has its entries in another order, otherwise it is the value itself.
-/

namespace Diamond.Json

open List

open Codec (Bytes)
open Bignum (Digits decimal signed minus Canonical formatIntDecimal diamondBignumToString)
open Hash (Key hashValue keyMatch assocLookup)

section
variable {F : Type}

/-- The values of the JSON types but the Floats, with at most this many levels of containers. -/
inductive Plain : ℕ → Value F → Prop
  | nil {levels} : Plain levels (.scalar .nil)
  | bool {levels boolean} : Plain levels (.scalar (.bool boolean))
  | int {levels raw n} : Canonical raw n → Plain levels (.scalar raw)
  | string {levels bytes} : Plain levels (.string bytes)
  | array {levels values} : (∀ v ∈ values, Plain levels v) → Plain (levels + 1) (.array values)
  | hash {levels} {entries : List (Key × Value F)} :
    (∀ e ∈ entries, ∃ name, e.1 = .string name) → (entries.map Prod.fst).Nodup →
    (∀ e ∈ entries, Plain levels e.2) → Plain (levels + 1) (.hash entries)

/-! ## Strings and numbers -/

lemma hex4_control : ∀ n < 0x20,
    [ascii '0', ascii '0', hexChar (n >>> 4), hexChar (n &&& 15)].mapM hexDigit =
      some [0, 0, n / 16, n % 16] := by
  decide

lemma character_writeByte (c : UInt8) : Character withAnyBytes (writeByte c) [c] := by
  rw [writeByte]
  split_ifs with hraw hquote hbackslash hn hr ht
  · exact .raw ⟨c, hraw.2.1, hraw.2.2, rfl⟩
  · rw [hquote]
    exact .escape (by decide)
  · rw [hbackslash]
    exact .escape (by decide)
  · rw [hn]
    exact .escape (by decide)
  · rw [hr]
    exact .escape (by decide)
  · rw [ht]
    exact .escape (by decide)
  · have hlt : c.toNat < 0x20 := by
      by_contra hge
      exact hraw ⟨UInt8.le_iff_toNat_le.2 (not_lt.1 hge), hquote, hbackslash⟩
    have hhex : Hex4 [ascii '0', ascii '0', hexChar (c.toNat >>> 4), hexChar (c.toNat &&& 15)]
        c.toNat := by
      refine ⟨rfl, _, hex4_control c.toNat hlt, ?_⟩
      show c.toNat = ((0 * 16 + 0) * 16 + c.toNat / 16) * 16 + c.toNat % 16
      omega
    have hbytes : jsonUtf8Append c.toNat = [c] := by
      rw [jsonUtf8Append, if_pos (by omega), UInt8.ofNat_toNat]
    have hcharacter := Character.unicode (d := withAnyBytes) hhex (.inl (by omega))
    rwa [hbytes] at hcharacter

lemma stringText_jsonWriteString (chars : Bytes) :
    StringText withAnyBytes (jsonWriteString chars) chars := by
  apply StringText.quoted
  induction chars with
  | nil => exact .nil
  | cons c _ ih => exact .cons (character_writeByte c) ih

variable {strtod : Bytes → F}

variable {raw : Bignum.DiamondValue} {β : Type} {l : List β} {entries : List (Key × Value F)}
  {e : Key × Value F}

lemma number_of_digits {n negative text} (hraw : Canonical raw n)
    (htext : Digits text) (hn : signed negative (decimal text) = n) :
    Number strtod withAnyBytes (minus negative ++ text) (.scalar raw) :=
  .int ⟨htext, .inl trivial⟩ (hn ▸ hraw)

variable {writer : JsonWriter}

lemma number_of_canonical {env : Environment F} {nesting}
    {element : Option (Value F → Result Bytes)} {n} (h : Canonical raw n) :
    ∃ text, writeValueWith env writer nesting element (.scalar raw) = .ok text ∧
      Number strtod withAnyBytes text (.scalar raw) := by
  cases h with
  | int i =>
    obtain ⟨text, heq, htext, hvalue⟩ := Bignum.formatIntDecimal_spec i
    refine ⟨_, rfl, ?_⟩
    rw [heq]
    exact number_of_digits (.int i) htext (by rw [hvalue, Bignum.signed_natAbs])
  | @bignum negative _ _ hbelow hlast ht hout =>
    obtain ⟨text, heq, htext, hvalue⟩ := Bignum.diamondBignumToString_spec negative hbelow hlast
    refine ⟨_, rfl, ?_⟩
    rw [heq]
    exact number_of_digits (.bignum hbelow hlast ht hout) htext (by rw [hvalue]; rfl)

lemma scalarsEqual_self {n} (h : Canonical raw n) : scalarsEqual raw raw = true := by
  have hcompare : Bignum.diamondBignumCompare (Bignum.diamondIntView raw)
      (Bignum.diamondIntView raw) = .eq := by
    rw [h.view, Bignum.compare_view]
    exact compare_eq_iff_eq.2 rfl
  cases h with
  | int i => exact beq_self_eq_true i
  | bignum => exact beq_iff_eq.2 hcompare

/-! ## Containers -/

lemma mapM_eq_ok {α γ : Type} {f : α → Result β} {P : α → β → γ → Prop} {as : List α}
    (h : ∀ a ∈ as, ∃ b c, f a = .ok b ∧ P a b c) :
    ∃ l : List (α × β × γ), l.map (fun x => x.1) = as ∧ as.mapM f = .ok (l.map fun x => x.2.1) ∧
      ∀ x ∈ l, P x.1 x.2.1 x.2.2 := by
  induction as with
  | nil => exact ⟨[], rfl, rfl, nofun⟩
  | cons a _ ih =>
    obtain ⟨⟨b, c, hf, hP⟩, has⟩ := forall_mem_cons.1 h
    obtain ⟨l, rfl, hmap, hl⟩ := ih has
    refine ⟨(a, b, c) :: l, rfl, ?_, forall_mem_cons.2 ⟨hP, hl⟩⟩
    rw [mapM_cons, hf, bind_ok, hmap, bind_ok]
    rfl

variable {text : β → Bytes}

lemma separated_separate {α : Type} {item : Bytes → α → Prop} {before after} {a : β → α}
    (hne : l ≠ []) (hitem : ∀ x ∈ l, ∀ w, Ws w → item (before ++ (text x ++ w)) (a x))
    (hafter : Ws after) : Separated item (separate before (l.map text) ++ after) (l.map a) := by
  induction l with
  | nil => exact absurd rfl hne
  | cons x l ih =>
    obtain ⟨hx, hl⟩ := forall_mem_cons.1 hitem
    cases l with
    | nil =>
      rw [map_singleton, map_singleton, separate, append_assoc]
      exact .one (hx after hafter)
    | cons y l =>
      have hone := hx [] nofun
      rw [append_nil] at hone
      rw [map_cons, map_cons, separate, append_assoc, cons_append]
      · exact .cons hone (ih (cons_ne_nil y l) hl)
      · exact cons_ne_nil _ _

lemma ws_jsonWriteBreak (h : Ws writer.indent) (level : ℕ) : Ws (jsonWriteBreak writer level) := by
  rw [jsonWriteBreak]
  split_ifs
  · exact nofun
  · refine forall_mem_cons.2 ⟨rfl, fun c hc => ?_⟩
    obtain ⟨l, hl, hc⟩ := mem_flatten.1 hc
    rw [eq_of_mem_replicate hl] at hc
    exact h c hc

/-- What a container is written with between its brackets, when it has items. -/
lemma separated_bracket {α : Type} {item : Bytes → α → Prop} (hindent : Ws writer.indent)
    {a : β → α} (hne : l ≠ [])
    (hitem : ∀ x ∈ l, ∀ w w', Ws w → Ws w' → item (w ++ (text x ++ w')) (a x)) (nesting : ℕ)
    (opening closing : UInt8) :
    ∃ inner, bracket writer nesting opening closing (l.map text) = opening :: (inner ++ [closing]) ∧
      Separated item inner (l.map a) := by
  refine ⟨_, ?_, separated_separate hne
    (fun x hx w => hitem x hx _ w (ws_jsonWriteBreak hindent (nesting + 1)))
    (ws_jsonWriteBreak hindent nesting)⟩
  rw [bracket, if_neg (fun h => hne (map_eq_nil_iff.1 h)), append_assoc]

section
variable {value : Bytes → Value F → Prop} {writer : JsonWriter} (hindent : Ws writer.indent)
include hindent

lemma container_array {v} (hl : ∀ x ∈ l, value (text x) (v x)) (nesting : ℕ) :
    Container withAnyBytes value (bracket writer nesting (ascii '[') (ascii ']') (l.map text))
      (.array (l.map v)) := by
  by_cases hne : l = []
  · rw [hne]
    exact .emptyArray nofun
  have hitem : ∀ x ∈ l, ∀ w w', Ws w → Ws w' → Element value (w ++ (text x ++ w')) (v x) :=
    fun x hx w w' hw hw' => .padded hw (hl x hx) hw'
  obtain ⟨_, heq, hinner⟩ := separated_bracket hindent hne hitem nesting (ascii '[') (ascii ']')
  rw [heq]
  exact .array hinner

lemma container_object {m}
    (hl : ∀ x ∈ l, ∃ inner, value inner (m x).2 ∧ text x = jsonWriteString (m x).1 ++
      ((if writer.indent = [] then [ascii ':'] else [ascii ':', ascii ' ']) ++ inner)) (nesting : ℕ) :
    Container withAnyBytes value
      (bracket writer nesting (ascii '\x7b') (ascii '\x7d') (l.map text)) (.hash (hashOf (l.map m))) := by
  by_cases hne : l = []
  · rw [hne]
    exact .emptyObject nofun
  have hitem : ∀ x ∈ l, ∀ w w', Ws w → Ws w' →
      Member withAnyBytes value (w ++ (text x ++ w')) (m x) := by
    intro x hx w w' hw hw'
    obtain ⟨inner, hinner, htext⟩ := hl x hx
    obtain ⟨space, hspace, hcolon⟩ : ∃ space, Ws space ∧
        (if writer.indent = [] then [ascii ':'] else [ascii ':', ascii ' ']) =
          ascii ':' :: space := by
      split_ifs
      · exact ⟨[], nofun, rfl⟩
      · exact ⟨[ascii ' '], forall_mem_singleton.2 rfl, rfl⟩
    have hafter : Ws [] := nofun
    have hmember : Member withAnyBytes value _ ((m x).1, (m x).2) :=
      .padded hw (stringText_jsonWriteString (m x).1) hafter (.padded hspace hinner hw')
    rw [htext, hcolon]
    simpa using hmember
  obtain ⟨inner, heq, hinner⟩ :=
    separated_bracket hindent hne hitem nesting (ascii '\x7b') (ascii '\x7d')
  rw [heq]
  exact .object hinner

end

/-! ## Hashes with String keys -/

lemma keyMatch_string (name name' : Bytes) :
    keyMatch hashValue Hash.valuesEqual (.string name) (.string name') = true ↔ name = name' := by
  constructor
  · intro h
    exact beq_iff_eq.1 (Bool.and_eq_true_iff.1 h).2
  · rintro rfl
    exact keyMatch_self name

lemma assocLookup_of_mem (hstring : ∀ e ∈ entries, ∃ name, e.1 = .string name)
    (hnodup : (entries.map Prod.fst).Nodup) (he : e ∈ entries) :
    assocLookup (keyMatch hashValue Hash.valuesEqual) entries e.1 = some e.2 := by
  have hfind : entries.find? (fun e' => keyMatch hashValue Hash.valuesEqual e'.1 e.1) = some e := by
    induction entries with
    | nil => cases he
    | cons _ _ ih =>
      obtain ⟨⟨name', he'⟩, htail⟩ := forall_mem_cons.1 hstring
      obtain ⟨hnot, hnodup⟩ := nodup_cons.1 hnodup
      rcases mem_cons.1 he with rfl | he
      · rw [find?_cons_of_pos]
        rw [he']
        exact keyMatch_self name'
      · obtain ⟨name, hname⟩ := htail e he
        rw [find?_cons_of_neg, ih htail hnodup he]
        rw [he', hname, keyMatch_string]
        rintro rfl
        exact hnot (mem_map.2 ⟨e, he, hname.trans he'.symm⟩)
  rw [assocLookup, hfind, Option.map_some]

lemma hashSet_new (hstring : ∀ e ∈ entries, ∃ name, e.1 = .string name) {name}
    (hnew : Key.string name ∉ entries.map Prod.fst) (v : Value F) :
    hashSet entries name v = entries ++ [(.string name, v)] := by
  have hfind : entries.findIdx? (fun e => keyMatch hashValue Hash.valuesEqual e.1 (.string name)) =
      none := by
    rw [findIdx?_eq_none_iff]
    intro e he
    obtain ⟨_, he'⟩ := hstring e he
    rw [he', Bool.eq_false_iff, ne_eq, keyMatch_string]
    rintro rfl
    exact hnew (mem_map.2 ⟨e, he, he'⟩)
  rw [hashSet, Hash.assocSet, hfind]

lemma hashOf_eq {ms : List (Bytes × Value F)} (hnodup : (ms.map Prod.fst).Nodup) :
    hashOf ms = ms.map fun m => (.string m.1, m.2) := by
  suffices h : ∀ entries : List (Key × Value F),
      (∀ e ∈ entries, ∃ name, e.1 = .string name) →
      (∀ m ∈ ms, Key.string m.1 ∉ entries.map Prod.fst) →
      ms.foldl (fun entries m => hashSet entries m.1 m.2) entries =
        entries ++ ms.map fun m => (.string m.1, m.2) from
    h [] nofun fun m _ => not_mem_nil
  induction ms with
  | nil =>
    intro entries _ _
    exact (append_nil entries).symm
  | cons m _ ih =>
    intro entries hstring hnew
    obtain ⟨hm, hms⟩ := forall_mem_cons.1 hnew
    obtain ⟨hnot, hnodup⟩ := nodup_cons.1 hnodup
    rw [foldl_cons, hashSet_new hstring hm, ih hnodup, append_assoc]
    · rfl
    · rw [forall_mem_append]
      exact ⟨hstring, forall_mem_singleton.2 ⟨m.1, rfl⟩⟩
    intro m' hm' hmem
    rw [map_append, mem_append] at hmem
    rcases hmem with hmem | hmem
    · exact hms m' hm' hmem
    · rw [map_singleton, mem_singleton, Key.string.injEq] at hmem
      exact hnot (mem_map.2 ⟨m', hm', hmem⟩)

/-! ## Values -/

variable (env : Environment F)

lemma hashOf_keyText {key} {v : β → Value F}
    (hstring : ∀ x ∈ l, ∃ name, key x = .string name) (hnodup : (l.map key).Nodup) :
    hashOf (l.map fun x => (keyText env (key x), v x)) = l.map fun x => (key x, v x) := by
  have hkey : ∀ x ∈ l, Key.string (keyText env (key x)) = key x := by
    intro x hx
    obtain ⟨name, hname⟩ := hstring x hx
    rw [hname, keyText]
  rw [hashOf_eq, map_map]
  · exact map_congr_left fun x hx => congrArg (·, v x) (hkey x hx)
  · apply List.Nodup.of_map Key.string
    rw [map_map, map_map]
    exact (map_congr_left hkey).symm ▸ hnodup

lemma jsonSortedOrder_perm (entries : List (Key × Value F)) :
    (jsonSortedOrder env entries).Perm entries := by
  have hperm := perm_insertionSort (fun left right : (Key × Value F) × ℕ =>
    jsonKeyCompare (keyText env left.1.1, left.2) (keyText env right.1.1, right.2) ≠ .gt) entries.zipIdx
  have hmap := hperm.map Prod.fst
  rwa [zipIdx_map_fst] at hmap

/-- What writing `v` as `text` and reading it back as `v'` comes to. -/
structure ReadsBack (writer : JsonWriter) (value : Bytes → Value F → Prop) (v : Value F) (text : Bytes)
    (v' : Value F) : Prop where
  text : value text v'
  equal : valuesEqual env v v' = true
  same : writer.sortKeys = false → v' = v

lemma elementsEqual_map {f g} (h : ∀ x ∈ l, valuesEqual env (f x) (g x) = true) :
    elementsEqual env (l.map f) (l.map g) = true := by
  induction l with
  | nil => rw [map_nil, map_nil, elementsEqual]; nofun
  | cons x l ih =>
    obtain ⟨hx, hl⟩ := forall_mem_cons.1 h
    rw [map_cons, map_cons, elementsEqual, hx, ih hl, Bool.and_self]

lemma entriesFound_of_lookup {left right}
    (h : ∀ e ∈ left, ∃ w, assocLookup (keyMatch hashValue Hash.valuesEqual) right e.1 = some w ∧
      valuesEqual env e.2 w = true) : entriesFound env left right = true := by
  induction left with
  | nil => rw [entriesFound]
  | cons _ _ ih =>
    obtain ⟨⟨w, hlookup, hw⟩, hleft⟩ := forall_mem_cons.1 h
    rw [entriesFound, hlookup, ih hleft, Bool.and_true]
    exact hw

/-- Hashes with the same String keys and equal values are equal, whatever their orders. -/
lemma valuesEqual_hash {key} {f g : β → Value F}
    (hperm : (l.map fun x => (key x, f x)).Perm entries)
    (hstring : ∀ x ∈ l, ∃ name, key x = .string name) (hnodup : (l.map key).Nodup)
    (heq : ∀ x ∈ l, valuesEqual env (f x) (g x) = true) :
    valuesEqual env (.hash entries) (.hash (l.map fun x => (key x, g x))) = true := by
  have hlength : entries.length = (l.map fun x => (key x, g x)).length := by
    rw [← hperm.length_eq, length_map, length_map]
  rw [valuesEqual, hlength, beq_self_eq_true, Bool.true_and]
  apply entriesFound_of_lookup
  intro e he
  obtain ⟨x, hx, rfl⟩ := mem_map.1 (hperm.mem_iff.2 he)
  refine ⟨g x, ?_, heq x hx⟩
  have hmem : (key x, g x) ∈ l.map fun x => (key x, g x) := mem_map.2 ⟨x, hx, rfl⟩
  exact assocLookup_of_mem (forall_mem_map.2 hstring) (by rw [map_map]; exact hnodup) hmem

variable {writer : JsonWriter} {nesting : ℕ}

lemma write_scalar {element v} (h : Plain 0 v) :
    ∃ text, writeValueWith env writer nesting element v = .ok text ∧
      ReadsBack env writer (Scalar strtod withAnyBytes) v text v := by
  cases h with
  | nil => exact ⟨_, rfl, .null, by rw [valuesEqual]; rfl, fun _ => rfl⟩
  | @bool _ boolean =>
    cases boolean with
    | false => exact ⟨_, rfl, .false, by rw [valuesEqual]; rfl, fun _ => rfl⟩
    | true => exact ⟨_, rfl, .true, by rw [valuesEqual]; rfl, fun _ => rfl⟩
  | int hraw =>
    obtain ⟨text, heq, htext⟩ := number_of_canonical hraw
    exact ⟨text, heq, .number htext, by rw [valuesEqual, scalarsEqual_self hraw], fun _ => rfl⟩
  | string =>
    exact ⟨_, rfl, .string (stringText_jsonWriteString _), by rw [valuesEqual, beq_self_eq_true],
      fun _ => rfl⟩

section
variable {value : Bytes → Value F → Prop} {element : Value F → Result Bytes}

lemma write_array (hindent : Ws writer.indent) {values}
    (h : ∀ v ∈ values, ∃ text v', element v = .ok text ∧ ReadsBack env writer value v text v') :
    ∃ text v', writeValueWith env writer nesting (some element) (.array values) = .ok text ∧
      ReadsBack env writer (Container withAnyBytes value) (.array values) text v' := by
  obtain ⟨l, rfl, hmap, hl⟩ := mapM_eq_ok h
  refine ⟨_, _, ?_, container_array hindent (fun x hx => (hl x hx).text) nesting, ?_, ?_⟩
  · rw [writeValueWith, hmap]
    rfl
  · rw [valuesEqual, length_map, length_map, beq_self_eq_true, Bool.true_and]
    exact elementsEqual_map env fun x hx => (hl x hx).equal
  · intro hsort
    rw [map_congr_left fun x hx => (hl x hx).same hsort]

lemma order_perm (writer : JsonWriter) (entries : List (Key × Value F)) :
    (if writer.sortKeys ∧ 1 < entries.length then jsonSortedOrder env entries else entries).Perm
      entries ∧ (writer.sortKeys = false →
      (if writer.sortKeys ∧ 1 < entries.length then jsonSortedOrder env entries else entries) =
        entries) := by
  split_ifs with hsort
  · exact ⟨jsonSortedOrder_perm env entries, fun hfalse => absurd hsort.1 (by simp [hfalse])⟩
  · exact ⟨.refl entries, fun _ => rfl⟩

lemma write_entry (h : ∃ text v', element e.2 = .ok text ∧ ReadsBack env writer value e.2 text v') :
    ∃ item v', writeEntry env writer element e = .ok item ∧
      ∃ text, ReadsBack env writer value e.2 text v' ∧ item = jsonWriteString (keyText env e.1) ++
        ((if writer.indent = [] then [ascii ':'] else [ascii ':', ascii ' ']) ++ text) := by
  obtain ⟨text, v', htext, hread⟩ := h
  refine ⟨_, v', ?_, text, hread, rfl⟩
  rw [writeEntry, htext]
  rfl

lemma write_hash (hindent : Ws writer.indent) (hstring : ∀ e ∈ entries, ∃ name, e.1 = .string name)
    (hnodup : (entries.map Prod.fst).Nodup)
    (h : ∀ e ∈ entries, ∃ text v', element e.2 = .ok text ∧ ReadsBack env writer value e.2 text v') :
    ∃ text v', writeValueWith env writer nesting (some element) (.hash entries) = .ok text ∧
      ReadsBack env writer (Container withAnyBytes value) (.hash entries) text v' := by
  rw [writeValueWith]
  obtain ⟨hperm, hunsorted⟩ := order_perm env writer entries
  generalize (if writer.sortKeys = true ∧ 1 < entries.length then jsonSortedOrder env entries
    else entries) = order at hperm hunsorted ⊢
  obtain ⟨l, rfl, hmap, hread⟩ := mapM_eq_ok (f := writeEntry env writer element) fun e he =>
    write_entry env (h e (hperm.mem_iff.1 he))
  have hstring' : ∀ x ∈ l, ∃ name, x.1.1 = .string name := fun x hx =>
    hstring x.1 (hperm.mem_iff.1 (mem_map.2 ⟨x, hx, rfl⟩))
  have hnodup' : (l.map fun x => x.1.1).Nodup := by
    have hkeys := (hperm.map Prod.fst).nodup_iff.2 hnodup
    rwa [map_map] at hkeys
  have hobject : Container withAnyBytes value
      (bracket writer nesting (ascii '\x7b') (ascii '\x7d') (l.map fun x => x.2.1))
      (.hash (hashOf (l.map fun x => (keyText env x.1.1, x.2.2)))) := by
    apply container_object hindent
    intro x hx
    obtain ⟨text, htext, hitem⟩ := hread x hx
    exact ⟨text, htext.text, hitem⟩
  rw [hashOf_keyText env hstring' hnodup'] at hobject
  refine ⟨_, _, by rw [hmap]; rfl, hobject, ?_, ?_⟩
  · apply valuesEqual_hash env hperm hstring' hnodup'
    intro x hx
    obtain ⟨text, htext, -⟩ := hread x hx
    exact htext.equal
  intro hsort
  rw [← hunsorted hsort]
  congr 1
  apply map_congr_left
  intro x hx
  obtain ⟨text, htext, -⟩ := hread x hx
  rw [htext.same hsort]

end

lemma write_value (hindent : Ws writer.indent) {levels v} (h : Plain levels v) :
    ∃ text v', jsonWriteValue env writer levels v = .ok text ∧
      ReadsBack env writer (IsValue strtod withAnyBytes levels) v text v' := by
  induction levels generalizing v with
  | zero =>
    obtain ⟨text, htext, hread⟩ := write_scalar env h
    exact ⟨text, v, htext, hread⟩
  | succ levels ih =>
    have hscalar (hv : Plain 0 v) : ∃ text v', jsonWriteValue env writer (levels + 1) v = .ok text ∧
        ReadsBack env writer (IsValue strtod withAnyBytes (levels + 1)) v text v' := by
      obtain ⟨text, htext, hread⟩ := write_scalar env hv
      exact ⟨text, v, htext, .inl hread.text, hread.equal, hread.same⟩
    cases h with
    | nil => exact hscalar .nil
    | bool => exact hscalar .bool
    | int hraw => exact hscalar (.int hraw)
    | string => exact hscalar .string
    | array hvalues =>
      obtain ⟨text, v', htext, hread⟩ := write_array env hindent fun v hv => ih (hvalues v hv)
      exact ⟨text, v', htext, .inr hread.text, hread.equal, hread.same⟩
    | hash hstring hnodup hvalues =>
      obtain ⟨text, v', htext, hread⟩ :=
        write_hash env hindent hstring hnodup fun e he => ih (hvalues e he)
      exact ⟨text, v', htext, .inr hread.text, hread.equal, hread.same⟩

/-! ## Options -/

lemma readIndent_ws {writer' : JsonWriter} (h : Ws writer.indent) {v : Value F}
    (hread : readIndent writer v = .ok writer') : Ws writer'.indent := by
  rw [readIndent.eq_def] at hread
  split at hread
  · cases hread
    exact h
  · split_ifs at hread
    cases hread
    intro c hc
    rw [eq_of_mem_replicate hc]
    rfl
  · split_ifs at hread with _ hany
    cases hread
    intro c hc
    by_contra hspace
    apply hany
    refine any_eq_true.2 ⟨c, hc, decide_eq_true ⟨?_, ?_⟩⟩
    all_goals
      rintro rfl
      exact hspace rfl
  · cases hread

lemma readOption_ws {writer'} (h : Ws writer.indent)
    (hread : readOption writer e = .ok writer') : Ws writer'.indent := by
  rw [readOption] at hread
  split_ifs at hread
  · exact readIndent_ws h hread
  rw [readSortKeys.eq_def] at hread
  split at hread
  · cases hread
    exact h
  · cases hread
    exact h
  · cases hread

/-- Whatever the options, values are indented with whitespace. -/
lemma jsonReadOptions_ws {options : Value F} (h : jsonReadOptions options = .ok writer) :
    Ws writer.indent := by
  have hfold : ∀ (entries : List (Key × Value F)) (writer' : JsonWriter), Ws writer'.indent →
      entries.foldlM readOption writer' = .ok writer → Ws writer.indent := by
    intro entries
    induction entries with
    | nil =>
      intro writer' hws hok
      cases hok
      exact hws
    | cons _ _ ih =>
      intro writer' hws hok
      rw [foldlM_cons] at hok
      obtain ⟨writer'', he, hentries⟩ := (bind_eq_ok _ _ _).1 hok
      exact ih writer'' (readOption_ws hws he) hentries
  have hempty : Ws [] := nofun
  rw [jsonReadOptions.eq_def] at h
  split at h
  · cases h
    exact hempty
  · exact hfold _ _ hempty h
  · cases h

/-- Parsing what was written for a value of the JSON types but the Floats gives back an equal value,
with the entries of its Hashes in their order unless `sort_keys` is set. -/
theorem parse_stringify (strtod : Bytes → F) {v options : Value F} (hv : Plain maxCallDepth v)
    (hoptions : jsonReadOptions options = .ok writer) :
    ∃ text v', jsonStringifyDocument env v options = .ok text ∧
      jsonParseDocument strtod text = .ok v' ∧ valuesEqual env v v' = true ∧
      (writer.sortKeys = false → v' = v) := by
  obtain ⟨text, v', htext, hread⟩ : ∃ text v', jsonWriteValue env writer maxCallDepth v = .ok text ∧
      ReadsBack env writer (IsValue strtod withAnyBytes maxCallDepth) v text v' :=
    write_value env (jsonReadOptions_ws hoptions) hv
  refine ⟨text, v', ?_, ?_, hread.equal, hread.same⟩
  · rw [jsonStringifyDocument, hoptions, bind_ok, htext]
  · rw [jsonParseDocument_eq_ok]
    have hdocument : Document strtod withAnyBytes ([] ++ (text ++ [])) v' :=
      .padded nofun hread.text nofun
    rwa [List.nil_append, List.append_nil] at hdocument

end

/-- An Array inside a Hash, with sorted keys and an indent of two spaces. -/
theorem parse_stringify_nested : let env : Environment Unit :=
      ⟨fun _ => [], fun _ => none, fun _ _ => true, fun _ _ => false, fun _ => []⟩
    let v : Value Unit := .hash [(.string [0x62], .array [.scalar (.int (-7)), .string [0xFF, 0x0A]]),
      (.string [0x61], .scalar .nil)]
    let options : Value Unit := .hash
      [(.symbol (['i', 'n', 'd', 'e', 'n', 't'].map ascii), .scalar (.int 2)),
        (.string (['s', 'o', 'r', 't', '_', 'k', 'e', 'y', 's'].map ascii), .scalar (.bool true))]
    ∃ text v', jsonStringifyDocument env v options = .ok text ∧
      jsonParseDocument (fun _ => ()) text = .ok v' ∧ valuesEqual env v v' = true ∧
      (true = false → v' = v) := by
  intro env v options
  have hoptions : jsonReadOptions options = .ok ⟨[0x20, 0x20], true⟩ := rfl
  refine parse_stringify env (fun _ => ()) ?_ hoptions
  refine .hash ?_ (by decide) ?_
  · simp
  · simp only [List.forall_mem_cons]
    refine ⟨.array ?_, .nil, by simp⟩
    simp only [List.forall_mem_cons]
    exact ⟨.int (.int (-7)), .string, by simp⟩

end Diamond.Json
