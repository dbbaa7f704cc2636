import Mathlib.Data.String.Basic
import Spacegate.AiGateway.Queue
import Spacegate.Foundation.SortedMap

/-!
# The histograms of the AI gateway

Every observation is counted in one of four buckets.  The lines of a histogram without labels
add up the buckets; those with labels show the buckets as they are.
-/

namespace Spacegate.AiGateway

open Foundation List Nat Function
open Queue (sanitizeKey)

namespace Metrics

/-- `fetch_add` on a counter of 64 bits. -/
def add64 (a b : Nat) : Nat :=
  (a + b) % 2 ^ 64

inductive Bucket where
  | first
  | second
  | third
  | beyond
  deriving DecidableEq

inductive Kind where
  | enqueueLatency
  | bodySize
  | workerProcessing
  deriving DecidableEq

namespace Kind

def name : Kind → String
  | .enqueueLatency => "enqueue_latency_ms"
  | .bodySize => "enqueue_body_size_bytes"
  | .workerProcessing => "worker_processing_time_ms"

/-- The largest value that the line of a bucket stands for. -/
def bound : Kind → Bucket → Option Nat
  | .enqueueLatency, .first => some 100
  | .enqueueLatency, .second => some 500
  | .enqueueLatency, .third => some 1000
  | .bodySize, .first => some (10 * 1024)
  | .bodySize, .second => some (128 * 1024)
  | .bodySize, .third => some (5 * 1024 * 1024)
  | .workerProcessing, .first => some 1000
  | .workerProcessing, .second => some 5000
  | .workerProcessing, .third => some 30000
  | _, .beyond => none

def le : Kind → Bucket → String
  | .enqueueLatency, .first => "100"
  | .enqueueLatency, .second => "500"
  | .enqueueLatency, .third => "1000"
  | .bodySize, .first => "10240"
  | .bodySize, .second => "131072"
  | .bodySize, .third => "5242880"
  | .workerProcessing, .first => "1000"
  | .workerProcessing, .second => "5000"
  | .workerProcessing, .third => "30000"
  | _, .beyond => "+Inf"

/-- The value is not above the bound of the bucket. -/
def within (kind : Kind) (b : Bucket) (value : Nat) : Bool :=
  (kind.bound b).all (value ≤ ·)

/-- The bucket in which a value is counted. -/
def bucket (kind : Kind) (value : Nat) : Bucket :=
  if kind.within .first value then .first
  else if kind.within .second value then .second
  else if kind.within .third value then .third
  else .beyond

end Kind

structure Histogram where
  count : Nat
  sum : Nat
  buckets : Bucket → Nat

def Histogram.init : Histogram where
  count := 0
  sum := 0
  buckets := fun _ => 0

def Histogram.observe (h : Histogram) (b : Bucket) (value : Nat) : Histogram where
  count := add64 h.count 1
  sum := add64 h.sum value
  buckets := update h.buckets b (add64 (h.buckets b) 1)

/-- The numbers in the lines of a histogram without labels. -/
def Histogram.reported (h : Histogram) : Bucket → Nat
  | .first => h.buckets .first
  | .second => add64 (h.buckets .first) (h.buckets .second)
  | .third => add64 (add64 (h.buckets .first) (h.buckets .second)) (h.buckets .third)
  | .beyond => h.count

end Metrics

open Metrics in
/-- The histograms, and the lines with labels in their order. -/
structure Metrics where
  histograms : Kind → Histogram
  labeled : SortedMap String Nat

namespace Metrics

def init : Metrics where
  histograms := fun _ => .init
  labeled := ∅

variable (m : Metrics)

def incLabeled (key : String) : Metrics :=
  { m with labeled := m.labeled.insert key (add64 ((m.labeled.get key).getD 0) 1) }

def bucketKey (kind : Kind) (labels : String) (b : Bucket) : String :=
  kind.name ++ "_bucket\x7b" ++ labels ++ ",le=\"" ++ kind.le b ++ "\"\x7d"

/-- What the three functions below have in common. -/
def record (kind : Kind) (value : Nat) (labels : Option String) : Metrics :=
  let observed := { m with
    histograms := update m.histograms kind
      ((m.histograms kind).observe (kind.bucket value) value) }
  match labels with
  | some labels => incLabeled observed (bucketKey kind labels (kind.bucket value))
  | none => observed

def observeEnqueueLatency (elapsedMs : Nat) (policy sizeBucket : String) : Metrics :=
  record m .enqueueLatency elapsedMs
    (some ("policy=\"" ++ policy ++ "\",size_bucket=\"" ++ sizeBucket ++ "\""))

def observeBodySize (size : Nat) : Metrics :=
  record m .bodySize size none

def metricsLabel (value : String) : String :=
  String.ofList ((sanitizeKey value).toList.take 64)

def observeWorkerProcessing (elapsedMs : Nat) (model : String) : Metrics :=
  record m .workerProcessing elapsedMs (some ("model=\"" ++ metricsLabel model ++ "\""))

/-! ## Runs -/

inductive Observation where
  | enqueueLatency (elapsedMs : Nat) (policy sizeBucket : String)
  | bodySize (size : Nat)
  | workerProcessing (elapsedMs : Nat) (model : String)

namespace Observation

def kind : Observation → Kind
  | enqueueLatency _ _ _ => .enqueueLatency
  | bodySize _ => .bodySize
  | workerProcessing _ _ => .workerProcessing

def value : Observation → Nat
  | enqueueLatency elapsedMs _ _ => elapsedMs
  | bodySize size => size
  | workerProcessing elapsedMs _ => elapsedMs

/-- The labels, as they stand in the line. -/
def labels : Observation → Option String
  | enqueueLatency _ policy sizeBucket =>
    some ("policy=\"" ++ policy ++ "\",size_bucket=\"" ++ sizeBucket ++ "\"")
  | bodySize _ => none
  | workerProcessing _ model => some ("model=\"" ++ metricsLabel model ++ "\"")

def bucket (o : Observation) : Bucket :=
  o.kind.bucket o.value

end Observation

def observe : Observation → Metrics
  | .enqueueLatency elapsedMs policy sizeBucket =>
    observeEnqueueLatency m elapsedMs policy sizeBucket
  | .bodySize size => observeBodySize m size
  | .workerProcessing elapsedMs model => observeWorkerProcessing m elapsedMs model

variable (observations : List Observation)

def run : Metrics :=
  observations.foldl observe .init

/-- The number in a line with labels; a line that is not there stands for none. -/
def reportedFor (kind : Kind) (labels : String) (b : Bucket) : Nat :=
  (m.labeled.get (bucketKey kind labels b)).getD 0

/-! ## Valid histograms -/

/-- The lines of a histogram that has counted the given values. -/
structure Cumulative (kind : Kind) (values : List Nat) (count : Nat) (reported : Bucket → Nat) :
    Prop where
  exact : ∀ b, reported b = values.countP (kind.within b)
  second : reported .first ≤ reported .second
  third : reported .second ≤ reported .third
  beyond : reported .third ≤ reported .beyond
  total : reported .beyond = count

/-- The values of a histogram, and those with the given labels. -/
def valuesOf (kind : Kind) (observations : List Observation) : List Nat :=
  (observations.filter (·.kind = kind)).map (·.value)

def valuesFor (kind : Kind) (labels : String) (observations : List Observation) : List Nat :=
  (observations.filter fun o => o.kind = kind ∧ o.labels = some labels).map (·.value)

/-- All histograms are valid, those without and those with labels. -/
def Valid : Prop :=
  (∀ kind, Cumulative kind (valuesOf kind observations) ((run observations).histograms kind).count
    ((run observations).histograms kind).reported) ∧
  ∀ kind labels, Cumulative kind (valuesFor kind labels observations)
    (valuesFor kind labels observations).length ((run observations).reportedFor kind labels)

/-- No counter overflows, and what is observed with labels is beyond all bounds. -/
def Beyond : Prop :=
  (∀ kind, (valuesOf kind observations).length < 2 ^ 64) ∧
    ∀ o ∈ observations, o.labels ≠ none → o.bucket = .beyond

theorem observe_eq (m : Metrics) (o : Observation) :
    observe m o = record m o.kind o.value o.labels := by
  cases o <;> rfl

/-! ## Counting -/

/-- The line with labels that an observation adds to. -/
def Observation.key (o : Observation) : Option String :=
  o.labels.map fun labels => bucketKey o.kind labels o.bucket

theorem countP_or {α : Type*} {p q : α → Prop} [DecidablePred p] [DecidablePred q]
    (h : ∀ a, p a → ¬q a) (l : List α) :
    l.countP (fun a => p a ∨ q a) = l.countP (p ·) + l.countP (q ·) := by
  induction l with
  | nil => rfl
  | cons a l ih =>
    have ha := h a
    by_cases hp : p a <;> by_cases hq : q a <;> simp_all <;> omega

theorem add64_mod (a b : Nat) : add64 (a % 2 ^ 64) (b % 2 ^ 64) = (a + b) % 2 ^ 64 :=
  (add_mod a b _).symm

/-- A counter that goes up with the observations of one kind holds their number. -/
theorem counter_run {p : Observation → Prop} [DecidablePred p] (counter : Metrics → Nat)
    (hInit : counter init = 0)
    (hStep : ∀ m o, counter (observe m o) = if p o then add64 (counter m) 1 else counter m)
    (observations : List Observation) :
    counter (run observations) = observations.countP (p ·) % 2 ^ 64 := by
  induction observations using List.reverseRecOn with
  | nil => exact hInit
  | append_singleton observations o ih =>
    rw [run, foldl_concat, ← run, hStep, ih, countP_append]
    by_cases h : p o
    · simp [h, add64]
    · simp [h]

theorem histograms_observe (m : Metrics) (o : Observation) :
    (observe m o).histograms = update m.histograms o.kind
      ((m.histograms o.kind).observe o.bucket o.value) := by
  rw [observe_eq]
  cases h : o.labels <;> rfl

variable (observations : List Observation) (kind : Kind)

theorem count_run : ((run observations).histograms kind).count =
      observations.countP (fun o => o.kind = kind) % 2 ^ 64 := by
  refine counter_run (fun m => (m.histograms kind).count) rfl (fun m o => ?_) observations
  rw [histograms_observe, update_apply]
  by_cases h : kind = o.kind
  · simp [h, Histogram.observe]
  · simp [h, Ne.symm h]

/-- The number of observations in some of the buckets. -/
def tally (kind : Kind) (bs : List Bucket) : Nat :=
  observations.countP fun o => o.kind = kind ∧ o.bucket ∈ bs

theorem tally_append {bs bs' : List Bucket} (h : bs.Disjoint bs')
    (observations : List Observation) (kind : Kind) : tally observations kind (bs ++ bs') =
      tally observations kind bs + tally observations kind bs' := by
  rw [tally, tally, tally, ← countP_or fun o hb hb' => h hb.2 hb'.2]
  simp [← and_or_left]

variable (b : Bucket)

theorem buckets_run :
    ((run observations).histograms kind).buckets b = tally observations kind [b] % 2 ^ 64 := by
  refine counter_run (fun m => (m.histograms kind).buckets b) rfl (fun m o => ?_) observations
  rw [histograms_observe, update_apply]
  by_cases h : kind = o.kind
  · by_cases hb : b = o.bucket
    · simp [h, hb, Histogram.observe]
    · simp [h, hb, Ne.symm hb, Histogram.observe]
  · simp [h, Ne.symm h]

theorem labeled_run (key : String) : ((run observations).labeled.get key).getD 0 =
      observations.countP (fun o => o.key = some key) % 2 ^ 64 := by
  refine counter_run (fun m => (m.labeled.get key).getD 0) rfl (fun m o => ?_) observations
  rw [observe_eq, Observation.key]
  cases o.labels with
  | none => rfl
  | some labels =>
    change ((m.labeled.insert (bucketKey o.kind labels o.bucket)
      (add64 ((m.labeled.get (bucketKey o.kind labels o.bucket)).getD 0) 1)).get key).getD 0 = _
    rw [SortedMap.get_insert]
    by_cases h : bucketKey o.kind labels o.bucket = key
    · simp [h]
    · simp [h]

/-! ## The lines -/

/-- The buckets that the line of a bucket adds up. -/
def Bucket.upTo : Bucket → List Bucket
  | .first => [.first]
  | .second => [.first, .second]
  | .third => [.first, .second, .third]
  | .beyond => [.first, .second, .third, .beyond]

theorem within_iff (value : Nat) : kind.within b value ↔ kind.bucket value ∈ b.upTo := by
  cases kind <;> cases b <;>
    simp only [Kind.bucket, Kind.within, Kind.bound, Option.all_some, Option.all_none,
      decide_eq_true_eq, Bucket.upTo] <;>
    split_ifs <;> simp <;> omega

/-- The lines without labels, but for the size of the counters. -/
theorem reported_run : ((run observations).histograms kind).reported b =
      tally observations kind b.upTo % 2 ^ 64 := by
  have hSecond := @tally_append [.first] [.second] (by simp) observations kind
  have hThird := @tally_append [.first, .second] [.third] (by simp) observations kind
  cases b with
  | first => exact buckets_run observations kind .first
  | second =>
    change add64 _ _ = _
    rw [buckets_run, buckets_run, add64_mod, ← hSecond]
    rfl
  | third =>
    change add64 (add64 _ _) _ = _
    rw [buckets_run, buckets_run, buckets_run, add64_mod, ← hSecond, add64_mod]
    exact congrArg (· % 2 ^ 64) hThird.symm
  | beyond =>
    change Histogram.count _ = _
    rw [count_run, tally]
    congr 2
    funext o
    cases o.bucket <;> simp [Bucket.upTo]

/-- A line tells the kind, the labels and the bucket. -/
theorem bucketKey_inj {kind kind' : Kind} {labels labels' : String} {b b' : Bucket} :
    bucketKey kind labels b = bucketKey kind' labels' b' ↔
      kind = kind' ∧ labels = labels' ∧ b = b' := by
  refine ⟨fun h => ?_, fun ⟨hk, hl, hb⟩ => by rw [hk, hl, hb]⟩
  replace h := congrArg String.toList h
  simp only [bucketKey, String.toList_append, append_assoc] at h
  have hKind : kind = kind' := by
    have := prefix_or_prefix_of_prefix ⟨_, rfl⟩ ⟨_, h.symm⟩
    revert this
    cases kind <;> cases kind' <;> decide
  subst hKind
  replace h := append_cancel_left (append_cancel_left h)
  have hBucket : b = b' := by
    have := suffix_or_suffix_of_suffix ⟨_, rfl⟩ ⟨_, h.symm⟩
    revert this
    cases kind <;> cases b <;> cases b' <;> decide
  subst hBucket
  exact ⟨rfl, String.toList_inj.mp (append_cancel_right h), rfl⟩

theorem key_eq_some_iff {o : Observation} {kind : Kind} {labels : String} {b : Bucket} :
    o.key = some (bucketKey kind labels b) ↔
      (o.kind = kind ∧ o.labels = some labels) ∧ o.bucket = b := by
  cases h : o.labels with
  | none => simp [Observation.key, h]
  | some labels' => simp [Observation.key, h, bucketKey_inj, and_assoc]

/-! ## Which histograms are valid -/

theorem Kind.within_mono {b b' : Bucket} (h : b.upTo ⊆ b'.upTo) (value : Nat)
    (hw : kind.within b value) : kind.within b' value :=
  (within_iff kind b' value).mpr (h ((within_iff kind b value).mp hw))

theorem Kind.countP_within_beyond (values : List Nat) :
    values.countP (kind.within .beyond) = values.length :=
  countP_eq_length.mpr fun _ _ => by cases kind <;> rfl

/-- The order of the lines follows from what they count. -/
theorem cumulative_iff {kind : Kind} {values : List Nat} {count : Nat} {reported : Bucket → Nat} :
    Cumulative kind values count reported ↔
      (∀ b, reported b = values.countP (kind.within b)) ∧ reported .beyond = count := by
  refine ⟨fun h => ⟨h.exact, h.total⟩, fun ⟨hExact, hTotal⟩ => ?_⟩
  have hMono (b b' : Bucket) (h : b.upTo ⊆ b'.upTo) : reported b ≤ reported b' := by
    rw [hExact, hExact]
    exact countP_mono_left fun value _ => kind.within_mono h value
  exact ⟨hExact, hMono _ _ (by decide), hMono _ _ (by decide), hMono _ _ (by decide), hTotal⟩

theorem countP_valuesOf :
    (valuesOf kind observations).countP (kind.within b) = tally observations kind b.upTo := by
  rw [valuesOf, countP_map, countP_filter, tally]
  refine countP_congr fun o _ => ?_
  simp only [comp_apply, Bool.and_eq_true, decide_eq_true_eq, within_iff]
  constructor
  · rintro ⟨hb, rfl⟩
    exact ⟨rfl, hb⟩
  · rintro ⟨rfl, hb⟩
    exact ⟨hb, rfl⟩

/-- The lines without labels are right as long as no counter overflows. -/
theorem cumulative_histogram_iff :
    Cumulative kind (valuesOf kind observations) ((run observations).histograms kind).count
        ((run observations).histograms kind).reported ↔
      (valuesOf kind observations).length < 2 ^ 64 := by
  have hLines (b : Bucket) : ((run observations).histograms kind).reported b =
      (valuesOf kind observations).countP (kind.within b) % 2 ^ 64 := by
    rw [reported_run, countP_valuesOf]
  rw [cumulative_iff]
  constructor
  · rintro ⟨hExact, -⟩
    rw [← kind.countP_within_beyond, ← hExact .beyond, hLines]
    exact mod_lt _ (by decide)
  · intro h
    refine ⟨fun b => ?_, rfl⟩
    rw [hLines]
    exact mod_eq_of_lt (lt_of_le_of_lt countP_le_length h)

variable (labels : String)

/-- The lines with labels show one bucket each. -/
theorem reportedFor_run (b : Bucket) : (run observations).reportedFor kind labels b =
      (valuesFor kind labels observations).countP (kind.bucket · = b) % 2 ^ 64 := by
  rw [reportedFor, labeled_run, valuesFor, countP_map, countP_filter]
  congr 1
  refine countP_congr fun o _ => ?_
  simp only [comp_apply, Bool.and_eq_true, decide_eq_true_eq, key_eq_some_iff]
  constructor
  · rintro ⟨⟨rfl, hl⟩, hb⟩
    exact ⟨hb, rfl, hl⟩
  · rintro ⟨hb, rfl, hl⟩
    exact ⟨⟨rfl, hl⟩, hb⟩

/-- The lines with labels are right only where there is nothing to add up. -/
theorem cumulative_labeled_iff (h : (valuesFor kind labels observations).length < 2 ^ 64) :
    Cumulative kind (valuesFor kind labels observations)
        (valuesFor kind labels observations).length ((run observations).reportedFor kind labels) ↔
      ∀ value ∈ valuesFor kind labels observations, kind.bucket value = .beyond := by
  have hLines (b : Bucket) : (run observations).reportedFor kind labels b =
      (valuesFor kind labels observations).countP (kind.bucket · = b) := by
    rw [reportedFor_run]
    exact mod_eq_of_lt (lt_of_le_of_lt countP_le_length h)
  rw [cumulative_iff]
  constructor
  · rintro ⟨-, hTotal⟩
    rw [hLines, countP_eq_length] at hTotal
    simpa using hTotal
  · intro hBeyond
    have hExact (b : Bucket) : (run observations).reportedFor kind labels b =
        (valuesFor kind labels observations).countP (kind.within b) := by
      rw [hLines]
      refine countP_congr fun value hv => ?_
      rw [within_iff, hBeyond value hv]
      cases b <;> decide
    refine ⟨hExact, ?_⟩
    rw [hExact, kind.countP_within_beyond]

theorem mem_valuesFor_iff {observations : List Observation} {kind : Kind} {labels : String}
    {value : Nat} : value ∈ valuesFor kind labels observations ↔
      ∃ o ∈ observations, (o.kind = kind ∧ o.labels = some labels) ∧ o.value = value := by
  simp [valuesFor, and_assoc]

variable (observations : List Observation)

theorem length_valuesFor_le :
    (valuesFor kind labels observations).length ≤ (valuesOf kind observations).length := by
  rw [valuesFor, valuesOf, length_map, length_map, ← countP_eq_length_filter,
    ← countP_eq_length_filter]
  refine countP_mono_left fun o _ h => ?_
  simp only [decide_eq_true_eq] at h ⊢
  exact h.1

/-- The text holds valid histograms as long as no counter overflows and all that is observed with
labels is beyond the bounds. -/
theorem valid_iff_beyond : Valid observations ↔ Beyond observations := by
  unfold Valid Beyond
  simp only [cumulative_histogram_iff]
  refine and_congr_right fun hFits => ?_
  have hLabeled (kind : Kind) (labels : String) := cumulative_labeled_iff observations kind labels
    (lt_of_le_of_lt (length_valuesFor_le kind labels observations) (hFits kind))
  simp only [hLabeled, mem_valuesFor_iff]
  constructor
  · intro h o ho hl
    obtain ⟨labels, hl⟩ := Option.ne_none_iff_exists'.mp hl
    exact h o.kind labels o.value ⟨o, ho, ⟨rfl, hl⟩, rfl⟩
  · rintro h kind labels value ⟨o, ho, ⟨rfl, hl⟩, rfl⟩
    exact h o ho (by simp [hl])

/-- A latency of 50 ms is in the line for 100 ms only. -/
theorem fiftyMs_not_valid : ¬Valid [.enqueueLatency 50 "queue" "inline"] := by
  intro h
  have := (h.2 .enqueueLatency "policy=\"queue\",size_bucket=\"inline\"").total
  revert this
  decide +kernel

end Metrics

end Spacegate.AiGateway
