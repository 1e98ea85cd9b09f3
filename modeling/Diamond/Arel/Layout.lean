import Diamond.Arel.Visitor

/-!
# What a query should be bound to

The layout of a tree is its text with every bound value at the place where it stands in the tree: a
placeholder is a hole with its value.  `Fits` says that a rendered text and the values that were
pushed are those of a layout, up to a number of values that were pushed without a hole.
-/

namespace Diamond.Arel

open List

open Codec (Bytes)

variable {V : Type}

inductive Piece (V : Type)
  | char (c : UInt8)
  | hole (value : V)

def Piece.spell : Piece V → UInt8
  | .char c => c
  | .hole _ => mark

def Piece.value : Piece V → Option V
  | .char _ => none
  | .hole value => some value

def spell (pieces : List (Piece V)) : Bytes := pieces.map Piece.spell

/-- The values in the holes of a layout, in the order of the text. -/
def values (pieces : List (Piece V)) : List V := pieces.filterMap Piece.value

/-- Text without holes. -/
def written (text : Bytes) : List (Piece V) := text.map .char

/-- A fragment with its placeholders filled from its values. -/
def rawPieces : Bytes → List V → List (Piece V)
  | [], _ => []
  | c :: text, params =>
    if c = mark then
      match params with
      | [] => .char c :: rawPieces text []
      | value :: params => .hole value :: rawPieces text params
    else .char c :: rawPieces text params

def joinPieces (separator : Bytes) : List (List (Piece V)) → List (Piece V)
  | [] => []
  | [segment] => segment
  | segment :: next :: segments =>
    segment ++ (written separator ++ joinPieces separator (next :: segments))

def clausePieces (keyword separator : Bytes) (segments : List (List (Piece V))) : List (Piece V) :=
  if segments = [] then [] else written keyword ++ joinPieces separator segments

/-! ## Texts that fit a layout -/

/-- A text without placeholders. -/
def Plain (text : Bytes) : Prop := mark ∉ text

instance (text : Bytes) : Decidable (Plain text) := inferInstanceAs (Decidable (mark ∉ text))

lemma Plain.append {text text'} (h : Plain text) (h' : Plain text' := by decide) :
    Plain (text ++ text') := by
  intro hmem
  rcases mem_append.1 hmem with hmem | hmem
  · exact h hmem
  · exact h' hmem

lemma Plain.after {text text'} (h : Plain text') (h' : Plain text := by decide) :
    Plain (text ++ text') :=
  h'.append h

/-- The text is that of the layout, and its values were pushed in order, unless some were pushed that
have no hole. -/
structure Fits (text : Bytes) (pushed : List V) (pieces : List (Piece V)) (lost : ℕ) : Prop where
  spelled : spell pieces = text
  marked : ∀ c, .char c ∈ pieces → c ≠ mark
  count : pushed.length = (values pieces).length + lost
  order : lost = 0 → pushed = values pieces

/-- The same for a list of texts. -/
structure FitsAll (texts : List Bytes) (pushed : List V) (segments : List (List (Piece V)))
    (lost : ℕ) : Prop where
  spelled : segments.map spell = texts
  marked : ∀ segment ∈ segments, ∀ c, .char c ∈ segment → c ≠ mark
  count : pushed.length = (segments.flatMap values).length + lost
  order : lost = 0 → pushed = segments.flatMap values

lemma spell_written (text : Bytes) : spell (written text : List (Piece V)) = text := by
  rw [spell, written, map_map]
  exact map_id text

lemma values_written (text : Bytes) : values (written text : List (Piece V)) = [] := by
  rw [values, written, filterMap_map]
  exact filterMap_eq_nil_iff.2 fun _ _ => rfl

lemma values_append (pieces pieces' : List (Piece V)) :
    values (pieces ++ pieces') = values pieces ++ values pieces' :=
  filterMap_append

lemma fits_written {text} (h : Plain text) : Fits text ([] : List V) (written text) 0 := by
  constructor
  case spelled => exact spell_written text
  case marked =>
    intro c hc
    obtain ⟨d, hd, hcd⟩ := mem_map.1 hc
    cases hcd
    rintro rfl
    exact h hd
  case count => rw [values_written]; rfl
  case order => exact fun _ => (values_written text).symm

lemma fits_hole (value : V) : Fits [mark] [value] [.hole value] 0 := by
  refine ⟨rfl, fun c hc => ?_, rfl, fun _ => rfl⟩
  cases mem_singleton.1 hc

variable {text text' : Bytes} {pushed pushed' : List V} {pieces pieces' : List (Piece V)}
  {lost lost' : ℕ}

section
variable (h : Fits text pushed pieces lost)
include h

lemma Fits.append (h' : Fits text' pushed' pieces' lost') :
    Fits (text ++ text') (pushed ++ pushed') (pieces ++ pieces') (lost + lost') := by
  constructor
  case spelled => rw [spell, map_append, ← h.spelled, ← h'.spelled]; rfl
  case marked =>
    intro c hc
    rcases mem_append.1 hc with hc | hc
    · exact h.marked c hc
    · exact h'.marked c hc
  case count =>
    rw [values_append, length_append, length_append, h.count, h'.count]
    omega
  case order =>
    intro hzero
    rw [values_append, h.order (by omega), h'.order (by omega)]

lemma Fits.after (hplain : Plain text' := by decide) :
    Fits (text' ++ text) pushed (written text' ++ pieces) lost := by
  have happend := (fits_written hplain).append h
  rwa [nil_append, Nat.zero_add] at happend

lemma Fits.before (hplain : Plain text' := by decide) :
    Fits (text ++ text') pushed (pieces ++ written text') lost := by
  have happend := h.append (fits_written hplain)
  rwa [append_nil, Nat.add_zero] at happend

end

lemma fits_nil : Fits [] ([] : List V) [] 0 := ⟨rfl, by simp, rfl, fun _ => rfl⟩

lemma fits_raw {sql : Bytes} {params : List V} (h : sql.count mark = params.length) :
    Fits sql params (rawPieces sql params) 0 := by
  induction sql generalizing params with
  | nil =>
    cases params with
    | nil => exact fits_nil
    | cons => cases h
  | cons c _ ih =>
    rw [rawPieces.eq_def]
    dsimp only
    split
    · next hc =>
      subst hc
      rw [count_cons_self] at h
      cases params with
      | nil => cases h
      | cons value => exact (fits_hole value).append (ih (Nat.succ.inj h))
    · next hc =>
      rw [count_cons_of_ne hc] at h
      have hplain : Plain [c] := fun hmem => hc (mem_singleton.1 hmem).symm
      exact (ih h).after hplain

lemma fits_holes (params : List V) :
    FitsAll (params.map fun _ => [mark]) params (params.map fun value => [.hole value]) 0 := by
  constructor
  case spelled => rw [map_map]; rfl
  case marked =>
    intro _ hsegment c hc
    obtain ⟨value, -, rfl⟩ := mem_map.1 hsegment
    cases mem_singleton.1 hc
  case count =>
    rw [flatMap_map]
    induction params with
    | nil => rfl
    | cons _ _ ih => exact congrArg Nat.succ ih
  case order =>
    intro _
    rw [flatMap_map]
    exact (flatMap_singleton' params).symm

section
variable {texts : List Bytes} {segments : List (List (Piece V))}

lemma fitsAll_nil : FitsAll [] ([] : List V) [] 0 := by
  refine ⟨rfl, ?_, rfl, fun _ => rfl⟩
  intro _ hsegment
  cases hsegment

lemma FitsAll.cons (h : Fits text pushed pieces lost) (hrest : FitsAll texts pushed' segments lost') :
    FitsAll (text :: texts) (pushed ++ pushed') (pieces :: segments) (lost + lost') := by
  constructor
  case spelled => rw [map_cons, h.spelled, hrest.spelled]
  case marked =>
    intro segment hsegment
    rcases mem_cons.1 hsegment with rfl | hsegment
    · exact h.marked
    · exact hrest.marked segment hsegment
  case count =>
    rw [flatMap_cons, length_append, length_append, h.count, hrest.count]
    omega
  case order =>
    intro hzero
    rw [flatMap_cons, h.order (by omega), hrest.order (by omega)]

lemma joinPieces_spec (separator : Bytes) (segments : List (List (Piece V))) :
    spell (joinPieces separator segments) = joinWith separator (segments.map spell) ∧
      values (joinPieces separator segments) = segments.flatMap values ∧
      ∀ c, .char c ∈ joinPieces separator segments →
        c ∈ separator ∨ ∃ segment ∈ segments, .char c ∈ segment := by
  induction segments with
  | nil => exact ⟨rfl, rfl, fun _ h => by cases h⟩
  | cons segment segments ih =>
    cases segments with
    | nil =>
      refine ⟨rfl, (append_nil _).symm, fun c hc => .inr ⟨segment, mem_cons_self, hc⟩⟩
    | cons =>
      obtain ⟨hspell, hvalues, hmem⟩ := ih
      refine ⟨?_, ?_, ?_⟩
      · have hwritten : spell (written separator : List (Piece V)) = separator :=
          spell_written separator
        rw [joinPieces, spell, map_append, map_append]
        change spell segment ++ (spell (written separator) ++ spell _) = _
        rw [hwritten, hspell]
        rfl
      · rw [joinPieces, values_append, values_append, values_written, hvalues]
        rfl
      · intro c hc
        rw [joinPieces] at hc
        rcases mem_append.1 hc with hc | hc
        · exact .inr ⟨segment, mem_cons_self, hc⟩
        rcases mem_append.1 hc with hc | hc
        · obtain ⟨d, hd, hcd⟩ := mem_map.1 hc
          cases hcd
          exact .inl hd
        · rcases hmem c hc with hc | ⟨other, hother, hc⟩
          · exact .inl hc
          · exact .inr ⟨other, mem_cons_of_mem _ hother, hc⟩

section
variable (h : FitsAll texts pushed segments lost)
include h

lemma FitsAll.join {separator} (hplain : Plain separator := by decide) :
    Fits (joinWith separator texts) pushed (joinPieces separator segments) lost := by
  obtain ⟨hspell, hvalues, hmem⟩ := joinPieces_spec separator segments
  constructor
  case spelled => rw [hspell, h.spelled]
  case marked =>
    intro c hc
    rcases hmem c hc with hc | ⟨segment, hsegment, hc⟩
    · rintro rfl
      exact hplain hc
    · exact h.marked segment hsegment c hc
  case count => rw [hvalues, h.count]
  case order => exact fun hzero => by rw [hvalues, h.order hzero]

lemma FitsAll.texts_eq_nil : texts = [] ↔ segments = [] := by
  rw [← h.spelled, map_eq_nil_iff]

lemma FitsAll.clause {keyword separator} (hkeyword : Plain keyword := by decide)
    (hseparator : Plain separator := by decide) :
    Fits (clause keyword separator texts) pushed (clausePieces keyword separator segments) lost := by
  rw [Arel.clause, clausePieces]
  by_cases hnil : segments = []
  · rw [if_pos (h.texts_eq_nil.2 hnil), if_pos hnil]
    have hjoin := h.join hseparator
    rw [h.texts_eq_nil.2 hnil, hnil] at hjoin
    exact hjoin
  · rw [if_neg (fun htexts => hnil (h.texts_eq_nil.1 htexts)), if_neg hnil]
    exact (h.join hseparator).after hkeyword

end

end

end Diamond.Arel
