import Mathlib.Tactic
import Spacegate.Foundation.Text
import Spacegate.Foundation.Trace

/-!
# Version control of the admin server

Every request passes a middleware with a version counter.  A request that changes
something is let through only if it carries the present version, and it then raises the
counter; the answer to a `GET` carries a version that the next change may be sent with.

The counter is read and raised by separate steps, and the handler runs after them, so
other requests can come in between.  A run is any interleaving of the steps of any
number of requests.  The marks of a run record what the requests see of each other.
-/

namespace Spacegate.AdminServer

open Foundation.Trace List

/-- What the middleware and the handler read of a request; the store is of any type. -/
structure Request (S : Type) where
  method : String
  path : String
  /-- The header `X-Client-Version`, if it is there and is text. -/
  clientHeader : Option String
  /-- What the handler of a changing request makes of the store; `none` if it fails or is
  not reached. -/
  handler : S → Option S

def requiresVersionControl (method path : String) : Bool :=
  if method ≠ "DELETE" ∧ method ≠ "POST" ∧ method ≠ "PUT" then false
  else
    let isReadOnlyPost := "/wasm/schema/preview".toList.isSuffixOf path.toList ||
      path == "/refresh" || "/plugin/refresh".toList.isSuffixOf path.toList
    !isReadOnlyPost

namespace Request

variable {S : Type} (request : Request S)

def clientVersion : Nat :=
  (request.clientHeader.bind (Foundation.Text.parseUnsigned 64)).getD 0

def isControlled : Bool :=
  requiresVersionControl request.method request.path

end Request

inductive Response (S : Type) where
  /-- `409`, with the header `X-Server-Version`. -/
  | conflict (version : Nat)
  /-- The handler's answer, for a `GET` with the header `X-Server-Version`. -/
  | handled (version : Option Nat) (data : Option S)

/-- Where a request is in `version_control`. -/
inductive Pc (S : Type) where
  | start
  /-- `Version::equal` was true. -/
  | update
  /-- `Version::update` has raised the counter and reads it again. -/
  | updateLoad
  | fetch
  /-- `next.run` for a request that changes the store. -/
  | write (version : Nat)
  /-- `next.run` for a request that does not. -/
  | read (version : Nat)
  | respond (version : Nat) (data : Option S)
  | reject
  | done (response : Response S)

/-- Let through, and the handler has not run yet. -/
def Pc.waiting {S : Type} : Pc S → Bool
  | .update | .updateLoad | .fetch | .write _ => true
  | _ => false

/-- The counter is raised, and the handler has not run yet. -/
def Pc.bumped {S : Type} : Pc S → Bool
  | .updateLoad | .fetch | .write _ => true
  | _ => false

inductive Mark (S : Type) where
  | accepted (id version : Nat)
  | issued (id version : Nat)
  | effect (id : Nat)
  /-- The data of an answer are read that will carry the version. -/
  | read (id : Nat) (data : S) (version : Nat)
  | returned (id : Nat) (data : S) (version : Nat)
  deriving DecidableEq

structure State (S : Type) where
  /-- The counter, an `AtomicU64`. -/
  version : Nat
  store : S
  pc : Nat → Pc S
  history : List (Mark S)

namespace State

variable {S : Type}

def init (store : S) : State S where
  version := 0
  store := store
  pc := fun _ => .start
  history := []

/-- A request goes on, leaving marks. -/
def advance (s : State S) (id : Nat) (pc : Pc S) (marks : List (Mark S)) : State S :=
  { s with pc := Function.update s.pc id pc, history := s.history ++ marks }

variable (requests : Nat → Request S)

/-- The next step of a request. -/
def step (s : State S) (id : Nat) : State S :=
  match s.pc id with
  | .start =>
    if (requests id).isControlled then
      if s.version = (requests id).clientVersion then
        s.advance id .update [.accepted id s.version]
      else s.advance id .reject []
    else s.advance id (.read s.version) []
  | .update =>
    { s with version := (s.version + 1) % 2 ^ 64 }.advance id .updateLoad
      [.issued id ((s.version + 1) % 2 ^ 64)]
  | .updateLoad => s.advance id .fetch []
  | .fetch => s.advance id (.write s.version) []
  | .write version =>
    match (requests id).handler s.store with
    | some store => { s with store := store }.advance id (.respond version none) [.effect id]
    | none => s.advance id (.respond version none) []
  | .read version =>
    s.advance id (.respond version (some s.store)) [.read id s.store version]
  | .respond version data =>
    if (requests id).method = "GET" then
      s.advance id (.done (.handled (some version) data))
        (data.toList.map fun d => .returned id d version)
    else s.advance id (.done (.handled none data)) []
  | .reject => s.advance id (.done (.conflict s.version)) []
  | .done _ => s

def run (s : State S) (schedule : List Nat) : State S :=
  schedule.foldl (step requests) s

/-- A change is let through only when no other one is on its way, the counter does not
wrap around, and no data are read under a version that was issued to a change which is
still on its way. -/
def Calm (s : State S) (id : Nat) : Prop :=
  match s.pc id with
  | .start => (requests id).isControlled = true → s.version = (requests id).clientVersion →
      ∀ m, (s.pc m).waiting = false
  | .update => s.version + 1 < 2 ^ 64
  | .read version => ∀ m, (s.pc m).bumped = true → version ≠ s.version
  | _ => True

end State

/-- What a client may rely on: between the data it was given and the change it sends with
their version no other change takes effect, every version lets one change through, and
the version that was issued to a change is given out with its result only. -/
structure Serial {S : Type} (history : List (Mark S)) : Prop where
  noLostUpdate : ∀ g d v m n, [.returned g d v, .accepted m v].Sublist history → n ≠ m →
    ¬ [.read g d v, .effect n, .effect m].Sublist history
  onePerVersion : ∀ m n v, .accepted m v ∈ history → .accepted n v ∈ history → m = n
  noEarlyLabel : ∀ g d v m, .returned g d v ∈ history → .issued m v ∈ history →
    ¬ [.read g d v, .effect m].Sublist history

/-! ## The invariant of calm runs

A change is let through with the version that it carries, `c m` for the request `m`.  So the
marks can be compared by the versions of their requests, whatever else was let through. -/

section Marks

variable {S : Type} (c : Nat → Nat)

def Fits (s : State S) : Mark S → Prop
  | .accepted m v => v = c m ∧ (v < s.version ∨ s.pc m = .update)
  | .issued m v => v = c m + 1
  | .effect m => c m < s.version
  | .read _ _ v => v ≤ s.version
  | .returned _ _ _ => True

/-- Changes are let through and take effect in the order of their versions, and what is read
before an effect has no newer version. -/
def Before : Mark S → Mark S → Prop
  | .accepted n _, .accepted m _ => c n < c m
  | .effect n, .effect m => c n < c m
  | .read _ _ v, .effect m => v ≤ c m
  | _, _ => True

/-- Changes that are let through with different versions. -/
def Apart (x y : Mark S) : Prop :=
  ∀ m v n w, x = .accepted m v → y = .accepted n w → c m ≠ c n

instance : Std.Symm (Apart (S := S) c) :=
  ⟨fun _ _ h m v n w hx hy => (h n w m v hy hx).symm⟩

structure Inv (s : State S) : Prop where
  alone : ∀ m n, (s.pc m).waiting = true → (s.pc n).waiting = true → m = n
  update : ∀ m, s.pc m = .update → s.version = c m
  /-- The next effect is that of a newer version than those of all marks. -/
  bumped : ∀ m, (s.pc m).bumped = true →
    s.version = c m + 1 ∧ ∀ x ∈ s.history, Before c x (.effect m)
  reading : ∀ m v, s.pc m = .read v → v ≤ s.version
  fits : ∀ x ∈ s.history, Fits c s x
  order : s.history.Pairwise (Before c)

end Marks

section Steps

variable {S : Type} {c : Nat → Nat} {s : State S} {id : Nat}

theorem Fits.mono {s' : State S} {x : Mark S} (h : Fits c s x) (hv : s.version ≤ s'.version)
    (hp : ∀ m, s.pc m = .update → s'.pc m = .update ∨ c m < s'.version) : Fits c s' x := by
  cases x with
  | accepted m v =>
    obtain ⟨rfl, hLt | hUpdate⟩ := h
    · exact ⟨rfl, .inl (hLt.trans_le hv)⟩
    · exact ⟨rfl, (hp m hUpdate).symm⟩
  | effect m => exact Nat.lt_of_lt_of_le h hv
  | read g d v => exact Nat.le_trans h hv
  | issued m v => exact h
  | returned g d v => trivial

variable (x : Mark S)

theorem before_issued (m v : Nat) : Before c x (.issued m v) := by
  cases x <;> trivial

theorem before_read (g : Nat) (d : S) (v : Nat) : Before c x (.read g d v) := by
  cases x <;> trivial

theorem before_returned (g : Nat) (d : S) (v : Nat) : Before c x (.returned g d v) := by
  cases x <;> trivial

theorem waiting_iff {pc : Pc S} : pc.waiting = true ↔ pc = .update ∨ pc.bumped = true := by
  cases pc <;> simp [Pc.waiting, Pc.bumped]

theorem pc_advance (s : State S) (id : Nat) (pc : Pc S) (marks : List (Mark S)) (m : Nat) :
    (s.advance id pc marks).pc m = if m = id then pc else s.pc m := by
  simp [State.advance, Function.update_apply]

namespace Inv

theorem init (c : Nat → Nat) (store : S) : Inv c (State.init store) := by
  constructor <;> simp [State.init, Pc.waiting, Pc.bumped]

variable (h : Inv c s)
include h

theorem before_of_sublist {x y : Mark S} (hs : [x, y].Sublist s.history) : Before c x y :=
  pairwise_iff_forall_sublist.mp h.order hs

theorem serial : Serial s.history where
  noLostUpdate g d v m n ha hNe ho := by
    obtain ⟨hv, -⟩ : v = c m ∧ _ := h.fits (.accepted m v) (ha.subset (by simp))
    have hRead : v ≤ c n := h.before_of_sublist
      ((by simp : [.read g d v, .effect n].Sublist [Mark.read g d v, .effect n, .effect m]).trans
        ho)
    have hEffect : c n < c m := h.before_of_sublist ((sublist_cons_self _ _).trans ho)
    omega
  onePerVersion m n v hm hn := by
    by_contra hNe
    have hDistinct : s.history.Pairwise (Apart c) := h.order.imp fun {x y} hb => by
      rintro m v n w rfl rfl
      exact Nat.ne_of_lt hb
    refine hDistinct.forall hm hn (fun hEq => hNe (Mark.accepted.inj hEq).1) m v n v rfl rfl ?_
    exact (h.fits _ hm).1.symm.trans (h.fits _ hn).1
  noEarlyLabel g d v m _ hIssued ho := by
    have hv : v = c m + 1 := h.fits _ hIssued
    have hRead : v ≤ c m := h.before_of_sublist ho
    omega

theorem not_waiting_of_ne (hId : (s.pc id).waiting = true) {m : Nat} (hm : m ≠ id) :
    (s.pc m).waiting = false :=
  Bool.eq_false_iff.mpr fun hw => hm (h.alone m id hw hId)

/-- New marks after the old ones. -/
theorem extend (s' : State S) {marks : List (Mark S)}
    (hh : s'.history = s.history ++ marks) (hv : s.version ≤ s'.version)
    (hp : ∀ m, s.pc m = .update → s'.pc m = .update ∨ c m < s'.version)
    (hFits : ∀ y ∈ marks, Fits c s' y ∧ ∀ x ∈ s.history, Before c x y)
    (hMarks : marks.Pairwise (Before c)) :
    (∀ x ∈ s'.history, Fits c s' x) ∧ s'.history.Pairwise (Before c) := by
  rw [hh]
  refine ⟨fun x hx => ?_, pairwise_append.mpr
    ⟨h.order, hMarks, fun x hx y hy => (hFits y hy).2 x hx⟩⟩
  rcases mem_append.mp hx with hOld | hNew
  · exact (h.fits x hOld).mono hv hp
  · exact (hFits x hNew).1

/-- A step by which no request is let through and no version is issued. -/
theorem quiet {pc : Pc S} {marks : List (Mark S)} (hPc : s.pc id ≠ .update)
    (hUpdate : pc ≠ .update) (hBumped : pc.bumped = true → (s.pc id).bumped = true)
    (hReading : ∀ v, pc = .read v → v ≤ s.version)
    (hMarks : ∀ y ∈ marks, Fits c s y ∧ (∀ x, Before c x y) ∧
      ∀ m, (s.pc m).bumped = true → Before c y (.effect m)) : Inv c (s.advance id pc marks) := by
  have hu : ∀ m, s.pc m = .update ↔ (s.advance id pc marks).pc m = .update := by
    intro m
    rw [pc_advance]
    split_ifs with hId
    · exact iff_of_false (hId ▸ hPc) hUpdate
    · rfl
  have hb : ∀ m, ((s.advance id pc marks).pc m).bumped = true → (s.pc m).bumped = true := by
    intro m hm
    rw [pc_advance] at hm
    split_ifs at hm with hId
    · exact hId ▸ hBumped hm
    · exact hm
  have hw : ∀ m, ((s.advance id pc marks).pc m).waiting = true → (s.pc m).waiting = true :=
    fun m hm => waiting_iff.mpr ((waiting_iff.mp hm).imp (hu m).mpr (hb m))
  obtain ⟨hFits, hOrder⟩ := h.extend (s.advance id pc marks) rfl le_rfl
    (fun m hm => .inl ((hu m).mp hm))
    (fun y hy => ⟨(hMarks y hy).1.mono le_rfl fun m hm => .inl ((hu m).mp hm),
      fun x _ => (hMarks y hy).2.1 x⟩)
    (pairwise_of_forall_mem_list fun x _ y hy => (hMarks y hy).2.1 x)
  refine ⟨fun m n hm hn => h.alone m n (hw m hm) (hw n hn), fun m hm => h.update m ((hu m).mpr hm),
    fun m hm => ⟨(h.bumped m (hb m hm)).1, fun x hx => ?_⟩, fun m v hm => ?_, hFits, hOrder⟩
  · rcases mem_append.mp hx with hOld | hNew
    · exact (h.bumped m (hb m hm)).2 x hOld
    · exact (hMarks x hNew).2.2 m (hb m hm)
  · rw [pc_advance] at hm
    split_ifs at hm with hId
    · exact hReading v hm
    · exact h.reading m v hm

/-- The only request that is on its way goes on, with one mark. -/
theorem goOn {v : Nat} {store : S} {pc : Pc S} {mark : Mark S} (hv : s.version ≤ v)
    (hAlone : ∀ m, m ≠ id → (s.pc m).waiting = false) (hLeft : s.pc id = .update → c id < v)
    (hUpdate : pc = .update → v = c id)
    (hBumped : pc.bumped = true →
      v = c id + 1 ∧ ∀ x ∈ s.history ++ [mark], Before c x (.effect id))
    (hReading : ∀ v, pc ≠ .read v)
    (hFits : Fits c ({ s with version := v, store := store }.advance id pc [mark]) mark)
    (hBefore : ∀ x ∈ s.history, Before c x mark) :
    Inv c ({ s with version := v, store := store }.advance id pc [mark]) := by
  have hPc := pc_advance { s with version := v, store := store } id pc [mark]
  have hId : ∀ m, (({ s with version := v, store := store }.advance id pc [mark]).pc m).waiting =
      true → m = id := by
    intro m hm
    by_contra hNe
    rw [hPc, if_neg hNe, hAlone m hNe] at hm
    cases hm
  obtain ⟨hAll, hOrder⟩ := h.extend ({ s with version := v, store := store }.advance id pc [mark])
    rfl hv
    (fun m hm => by
      by_cases hNe : m = id
      · subst hNe
        exact .inr (hLeft hm)
      · have hNot := hAlone m hNe
        rw [hm] at hNot
        cases hNot)
    (forall_mem_singleton.mpr ⟨hFits, hBefore⟩) (pairwise_singleton _ _)
  refine ⟨fun m n hm hn => (hId m hm).trans (hId n hn).symm, fun m hm => ?_, fun m hm => ?_,
    fun m w hm => ?_, hAll, hOrder⟩
  · obtain rfl := hId m (waiting_iff.mpr (.inl hm))
    rw [hPc, if_pos rfl] at hm
    exact hUpdate hm
  · obtain rfl := hId m (waiting_iff.mpr (.inr hm))
    rw [hPc, if_pos rfl] at hm
    exact hBumped hm
  · rw [hPc] at hm
    split_ifs at hm
    · exact absurd hm (hReading w)
    · exact (h.reading m w hm).trans hv

theorem accept (hVersion : s.version = c id) (hAlone : ∀ m, (s.pc m).waiting = false) :
    Inv c (s.advance id .update [.accepted id s.version]) := by
  have hu : ∀ m, s.pc m ≠ .update := by
    intro m hm
    exact absurd (hAlone m) (by simp [waiting_iff.mpr (.inl hm)])
  refine h.goOn le_rfl (fun m _ => hAlone m) (fun hm => absurd hm (hu id)) (fun _ => hVersion)
    (by rintro ⟨⟩) (by simp) ⟨hVersion, .inr (by simp [pc_advance])⟩ fun x hx => ?_
  cases x with
  | accepted n w =>
    obtain ⟨rfl, hLt | hUpdate⟩ := h.fits _ hx
    · exact hVersion ▸ hLt
    · exact absurd hUpdate (hu n)
  | _ => trivial

theorem bump (hPc : s.pc id = .update) :
    Inv c ({ s with version := s.version + 1 }.advance id .updateLoad
      [.issued id (s.version + 1)]) := by
  have hVersion := h.update id hPc
  refine h.goOn (Nat.le_succ _) (fun m => h.not_waiting_of_ne (by rw [hPc]; rfl))
    (fun _ => hVersion ▸ Nat.lt_succ_self _) (by simp) (fun _ => ⟨by rw [hVersion], fun x hx => ?_⟩)
    (by simp) (congrArg (· + 1) hVersion) fun x _ => before_issued x id _
  rcases mem_append.mp hx with hOld | hNew
  · have hx := h.fits x hOld
    cases x with
    | effect n => exact Nat.lt_of_lt_of_eq hx hVersion
    | read g d v => exact Nat.le_trans hx hVersion.le
    | _ => trivial
  · obtain rfl := mem_singleton.mp hNew
    trivial

theorem write {version : Nat} {data : Option S} (hPc : s.pc id = .write version) (store : S) :
    Inv c ({ s with store := store }.advance id (.respond version data) [.effect id]) := by
  have hb : (s.pc id).bumped = true := by rw [hPc]; rfl
  obtain ⟨hVersion, hBefore⟩ := h.bumped id hb
  exact h.goOn le_rfl (fun m => h.not_waiting_of_ne (waiting_iff.mpr (.inr hb)))
    (fun hm => by cases hPc.symm.trans hm) (by simp) (by rintro ⟨⟩) (by simp)
    (hVersion ▸ Nat.lt_succ_self (c id)) hBefore

omit h

variable {requests : Nat → Request S}

theorem step (h : Inv (fun m => (requests m).clientVersion) s) (hc : State.Calm requests s id) :
    Inv (fun m => (requests m).clientVersion) (s.step requests id) := by
  unfold State.Calm at hc
  unfold State.step
  cases hPc : s.pc id with
  | start =>
    simp only [hPc] at hc ⊢
    split_ifs with hControlled he
    · exact h.accept he (hc hControlled he)
    · exact h.quiet (by simp [hPc]) (by simp) (by simp [Pc.bumped]) (by simp) (by simp)
    · refine h.quiet (by simp [hPc]) (by simp) (by simp [Pc.bumped]) ?_ (by simp)
      rintro v ⟨⟩
      exact le_rfl
  | update =>
    simp only [hPc] at hc ⊢
    rw [Nat.mod_eq_of_lt hc]
    exact h.bump hPc
  | updateLoad | fetch =>
    exact h.quiet (by simp [hPc]) (by simp) (by simp [hPc, Pc.bumped]) (by simp) (by simp)
  | write version =>
    cases (requests id).handler s.store with
    | some store => exact h.write hPc store
    | none => exact h.quiet (by simp [hPc]) (by simp) (by simp [Pc.bumped]) (by simp) (by simp)
  | read version =>
    simp only [hPc] at hc
    have hLe := h.reading id version hPc
    refine h.quiet (by simp [hPc]) (by simp) (by simp [Pc.bumped]) (by simp) fun y hy => ?_
    obtain rfl := mem_singleton.mp hy
    refine ⟨hLe, fun x => before_read x _ _ _, fun m hm => ?_⟩
    -- the version is older than that of a change on its way
    have hLt := lt_of_le_of_ne hLe (hc m hm)
    rw [(h.bumped m hm).1] at hLt
    exact Nat.le_of_lt_succ hLt
  | respond version data =>
    simp only
    split_ifs with hGet
    · refine h.quiet (by simp [hPc]) (by simp) (by simp [Pc.bumped]) (by simp) fun y hy => ?_
      obtain ⟨d, -, rfl⟩ := mem_map.mp hy
      exact ⟨trivial, fun x => before_returned x _ _ _, fun m _ => trivial⟩
    · exact h.quiet (by simp [hPc]) (by simp) (by simp [Pc.bumped]) (by simp) (by simp)
  | reject => exact h.quiet (by simp [hPc]) (by simp) (by simp [Pc.bumped]) (by simp) (by simp)
  | done response => exact h

theorem run {schedule : List Nat} (h : Inv (fun m => (requests m).clientVersion) s)
    (hc : Along (State.step requests) (State.Calm requests) s schedule) :
    Inv (fun m => (requests m).clientVersion) (s.run requests schedule) :=
  hc.foldl h fun _ _ h => h.step

end Inv

end Steps

theorem pc_step_ne {S : Type} (requests : Nat → Request S) (s : State S) {id m : Nat}
    (h : m ≠ id) : (s.step requests id).pc m = s.pc m := by
  unfold State.step
  cases s.pc id with
  | start => simp only; split_ifs <;> simp [State.advance, h]
  | write version =>
    cases (requests id).handler s.store <;> simp [State.advance, h]
  | respond version data => simp only; split_ifs <;> simp [State.advance, h]
  | update | updateLoad | fetch | read _ | reject => simp [State.advance, h]
  | done response => rfl

/-- In every calm interleaving of any requests clients can rely on the versions. -/
theorem serial_of_calm {S : Type} {requests : Nat → Request S} {store : S} {schedule : List Nat}
    (hCalm : Along (State.step requests) (State.Calm requests) (State.init store) schedule) :
    Serial ((State.init store).run requests schedule).history :=
  ((Inv.init _ store).run hCalm).serial

/-! ## Runs over a store that is one number -/

def getRequest : Request Nat where
  method := "GET"
  path := "/config"
  clientHeader := none
  handler := some

def putRequest (data : Nat) : Request Nat where
  method := "PUT"
  path := "/config"
  clientHeader := some "0"
  handler := fun _ => some data

/-- The requests 1 and 2 are changes with the version 0, all others read. -/
def twoClients : Nat → Request Nat
  | 1 => putRequest 1
  | 2 => putRequest 2
  | _ => getRequest

/-- One client reads and changes, with nobody in between. -/
def oneAfterTheOther : List Nat := [0, 0, 0, 1, 1, 1, 1, 1, 1]

theorem oneAfterTheOther_calm :
    Along (State.step twoClients) (State.Calm twoClients) (State.init 0) oneAfterTheOther := by
  refine ⟨?_, ?_, trivial, ?_, ?_, trivial, trivial, trivial, trivial, trivial⟩
  · intro hc
    cases hc
  · rintro m hm
    by_cases h0 : m = 0
    · subst h0
      cases hm
    · rw [pc_step_ne twoClients _ h0] at hm
      cases hm
  · intro _ _ m
    by_cases h0 : m = 0
    · subst h0
      rfl
    · rw [pc_step_ne twoClients _ h0, pc_step_ne twoClients _ h0, pc_step_ne twoClients _ h0]
      rfl
  · exact (by decide : 0 + 1 < 2 ^ 64)

theorem oneAfterTheOther_serial :
    .effect 1 ∈ ((State.init 0).run twoClients oneAfterTheOther).history ∧
      Serial ((State.init 0).run twoClients oneAfterTheOther).history :=
  ⟨by decide, serial_of_calm oneAfterTheOther_calm⟩

/-- Both changes are checked before one of them raises the version, and a third client
reads between that and the first effect. -/
def mixedUp : List Nat := [0, 0, 0, 1, 2, 1, 3, 3, 3, 1, 1, 1, 2, 2, 2, 2]

theorem mixedUp_not_serial :
    let history := ((State.init 0).run twoClients mixedUp).history
    -- both changes are let through with the version of the first answer
    (.accepted 1 0 ∈ history ∧ [.returned 0 0 0, .accepted 2 0].Sublist history ∧
      [.read 0 0 0, .effect 1, .effect 2].Sublist history) ∧
    -- and the version issued to the first one is given out with the old data
    (.issued 1 1 ∈ history ∧ .returned 3 0 1 ∈ history ∧ [.read 3 0 1, .effect 1].Sublist history) ∧
    ¬ Serial history := by
  refine ⟨by decide, by decide, ?_⟩
  intro h
  exact absurd (h.onePerVersion 1 2 0 (by decide) (by decide)) (by decide)

end Spacegate.AdminServer
