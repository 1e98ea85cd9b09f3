import Mathlib.Tactic.Linarith

/-! # The rate limiter

Each key has a bucket: when its window began, and the requests counted since.  `sweep` drops the
buckets whose window has ended.  `Time.monotonic` is a parameter: times are ordered, and what has
passed since a start does not shrink. -/

namespace Diamond.Rack

open List

structure Bucket (T : Type) where
  start : T
  count : ℕ

structure RateLimit (T : Type) where
  limit : ℕ
  window : T
  maxKeys : ℕ

/-- How a request was answered: whether it began a window of its key, and whether it was forwarded;
one that was not gets the 429 response, which depends on the options only. -/
structure Response where
  key : String
  fresh : Bool
  forwarded : Bool

abbrev Buckets (T : Type) := Std.HashMap String (Bucket T)

namespace RateLimit

variable {T : Type} [LinearOrder T] [Sub T] (c : RateLimit T)

def sweep (now : T) (buckets : Buckets T) : Buckets T :=
  if buckets.size ≤ c.maxKeys then buckets
  else buckets.filter fun _ kept => now - kept.start < c.window

/-- The bucket a request is counted in, and whether it is a new one. -/
def current (now : T) : Option (Bucket T) → Bool × Bucket T
  | none => (true, ⟨now, 0⟩)
  | some bucket => if c.window ≤ now - bucket.start then (true, ⟨now, 0⟩) else (false, bucket)

/-- A request, with the call of `sweep` or without. -/
def call (sweeps : Bool) (buckets : Buckets T) (key : String) (now : T) : Buckets T × Response :=
  let (fresh, bucket) := c.current now buckets[key]?
  let counted := { bucket with count := bucket.count + 1 }
  let held := buckets.insert key counted
  (if sweeps then c.sweep now held else held, ⟨key, fresh, counted.count ≤ c.limit⟩)

def run (sweeps : Bool) (buckets : Buckets T) : List (String × T) → List Response
  | [] => []
  | (key, now) :: requests =>
    let next := c.call sweeps buckets key now
    next.2 :: run sweeps next.1 requests

/-- Two tables agree at a time but for buckets whose window has ended, which one may lack. -/
def Agree (now : T) (swept kept : Buckets T) : Prop :=
  ∀ k : String, swept[k]? = kept[k]? ∨
    swept[k]? = none ∧ ∃ b, kept[k]? = some b ∧ c.window ≤ now - b.start

variable {c} {swept kept buckets : Buckets T} {key : String} {now : T} {requests : List (String × T)}

lemma Agree.current (h : c.Agree now swept kept) :
    c.current now swept[key]? = c.current now kept[key]? := by
  rcases h key with h | ⟨hnone, b, hb, hended⟩
  · rw [h]
  · simp [hnone, hb, RateLimit.current, hended]

lemma sweep_agree (buckets : Buckets T) : c.Agree now (c.sweep now buckets) buckets := by
  intro k
  unfold sweep
  split
  · exact .inl rfl
  rw [Std.HashMap.getElem?_filter']
  cases hk : buckets[k]? with
  | none => exact .inl rfl
  | some b =>
    by_cases hb : now - b.start < c.window
    · exact .inl (by simp [hb])
    · exact .inr ⟨by simpa using not_lt.1 hb, b, rfl, not_lt.1 hb⟩

lemma Agree.call (key : String) (h : c.Agree now swept kept) :
    (c.call true swept key now).2 = (c.call false kept key now).2 ∧
      c.Agree now (c.call true swept key now).1 (c.call false kept key now).1 := by
  simp only [RateLimit.call, h.current, true_and, if_true]
  intro k
  set counted : Bucket T := { (c.current now kept[key]?).2 with count := _ }
  have hheld : c.Agree now (swept.insert key counted) (kept.insert key counted) := by
    intro k
    simp only [Std.HashMap.getElem?_insert]
    split
    · exact .inl rfl
    · exact h k
  rcases sweep_agree (c := c) (swept.insert key counted) k with hk | ⟨hnone, b, hb, he⟩
  · exact hk ▸ hheld k
  · rcases hheld k with hk | ⟨hk, -⟩
    · exact .inr ⟨hnone, b, hk ▸ hb, he⟩
    · simp [hk] at hb

lemma run_agree (hsub : ∀ start, Monotone fun now : T => now - start)
    (htimes : requests.Pairwise (·.2 ≤ ·.2)) (hnow : ∀ r ∈ requests, now ≤ r.2)
    (h : c.Agree now swept kept) : c.run true swept requests = c.run false kept requests := by
  induction requests generalizing now swept kept with
  | nil => rfl
  | cons request requests ih =>
    have hlater : c.Agree request.2 swept kept := fun k => (h k).imp_right fun ⟨hk, b, hb, he⟩ =>
      ⟨hk, b, hb, he.trans (hsub _ (hnow _ (.head _)))⟩
    obtain ⟨hresponse, hagree⟩ := hlater.call request.1
    rw [pairwise_cons] at htimes
    simp only [run, hresponse]
    rw [ih htimes.2 htimes.1 hagree]

/-- While a key begins no window, what is left of its limit bounds its forwarded requests. -/
lemma forwarded_le_left {segment : List Response} {b : Bucket T}
    (hb : buckets[key]? = some b) (hsegment : segment <+: c.run false buckets requests)
    (hfresh : ∀ r ∈ segment, r.key = key → r.fresh = false) :
    segment.countP (fun r => r.key == key && r.forwarded) ≤ c.limit - b.count := by
  induction requests generalizing segment buckets b with
  | nil => simp_all [run]
  | cons request requests ih =>
    rw [run, prefix_cons_iff] at hsegment
    obtain rfl | ⟨rest, rfl, hrest⟩ := hsegment
    · simp
    rw [forall_mem_cons] at hfresh
    by_cases hkey : request.1 = key
    · have hcall : c.call false buckets request.1 request.2 =
          (buckets.insert key ⟨b.start, b.count + 1⟩, ⟨key, false, b.count + 1 ≤ c.limit⟩) := by
        have := hfresh.1 hkey
        simp only [call, hkey, hb, current] at this ⊢
        split_ifs at this ⊢ <;> simp_all
      rw [hcall] at hrest ⊢
      have := ih Std.HashMap.getElem?_insert_self hrest hfresh.2
      simp only [countP_cons]
      grind
    · have := ih (by simpa [call, Std.HashMap.getElem?_insert, hkey] using hb) hrest hfresh.2
      simpa [call, hkey] using this

end RateLimit
end Diamond.Rack
