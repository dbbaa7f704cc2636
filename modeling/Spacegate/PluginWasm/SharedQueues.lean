import Mathlib.Data.Finset.Card
import Mathlib.Logic.Function.Basic
import Spacegate.Foundation.Trace
import Spacegate.PluginWasm.Config

/-!
# Queues that guests share

The queues of the process are known by a number, which a guest gets for the name of a queue and
the `vm_id` that has registered it.  A message is taken from its queue before it is written to the
memory of the guest, and that can fail.
-/

namespace Spacegate.PluginWasm.SharedQueues

open Finset Function List Option
open Foundation.Trace (Along along_append)

/-! ## The registry -/

structure SharedQueueRegistry where
  byId : Nat → Option (List Bytes)
  byName : String × String → Option Nat
  nextId : Nat

def SharedQueueRegistry.default : SharedQueueRegistry where
  byId := fun _ => none
  byName := fun _ => none
  nextId := 0

inductive QueueOpResult where
  | ok
  | notFound
  | empty
  deriving DecidableEq, Repr

section Registry

variable (g : SharedQueueRegistry)

def queueRegister (key : String × String) : SharedQueueRegistry × Nat :=
  match g.byName key with
  | some qid => (g, qid)
  | none =>
    let qid := max ((g.nextId + 1) % 2 ^ 32) 1
    ({ byId := update g.byId qid (some [])
       byName := update g.byName key (some qid)
       nextId := qid }, qid)

def queueResolve (key : String × String) : Option Nat :=
  g.byName key

def queueEnqueue (qid : Nat) (value : Bytes) : SharedQueueRegistry × QueueOpResult :=
  match g.byId qid with
  | some q => ({ g with byId := update g.byId qid (some (q ++ [value])) }, .ok)
  | none => (g, .notFound)

def queueDequeue (qid : Nat) : SharedQueueRegistry × QueueOpResult × Option Bytes :=
  match g.byId qid with
  | some (v :: q) => ({ g with byId := update g.byId qid (some q) }, .ok, some v)
  | some [] => (g, .empty, none)
  | none => (g, .notFound, none)

end Registry

/-! ## The memory of a guest -/

inductive Status where
  | notFound
  | empty
  | invalidMemoryAccess
  | internalFailure
  deriving DecidableEq, Repr

structure Guest where
  /-- The size of its memory, if that is exported. -/
  memory : Option Nat
  /-- The allocator answers with a pointer, and with the memory as it is then, or traps. -/
  alloc : Option (Nat → Option (Nat × Option Nat))

/-- A write of some bytes to a place in the memory. -/
def write (memory : Option Nat) (ptr size : Nat) : Except Status Unit :=
  if memory.any (ptr + size ≤ ·) then .ok () else .error .invalidMemoryAccess

def writeAllocPair (guest : Guest) (payload : Bytes) (returnDataPtr returnSizePtr : Nat) :
    Except Status Unit := do
  write guest.memory 0 0
  if payload = [] then
    write guest.memory returnDataPtr 4
    write guest.memory returnSizePtr 4
  else
    match guest.alloc with
    | none => .error .internalFailure
    | some alloc =>
      match alloc payload.length with
      | none => .error .internalFailure
      | some (ptr, memory) => do
        write memory ptr payload.length
        write memory returnDataPtr 4
        write memory returnSizePtr 4

/-! ## Host calls -/

/-- A call, whichever guest makes it. -/
inductive Call where
  | register (key : String × String)
  | resolve (key : String × String)
  | enqueue (qid : Nat) (value : Bytes)
  | dequeue (guest : Guest) (qid returnDataPtr returnSizePtr : Nat)

/-- What comes of a call. -/
inductive Event where
  /-- A queue is known by this number. -/
  | named (key : String × String) (qid : Nat)
  | enqueued (qid : Nat) (message : Bytes)
  | delivered (qid : Nat) (message : Bytes)
  /-- A message is taken, but the call fails. -/
  | lost (qid : Nat) (message : Bytes) (status : Status)
  | failed (status : Status)
  deriving DecidableEq

structure State where
  registry : SharedQueueRegistry
  /-- In the order of the calls. -/
  events : List Event

def perform (g : SharedQueueRegistry) : Call → SharedQueueRegistry × Event
  | .register key =>
    let (g, qid) := queueRegister g key
    (g, .named key qid)
  | .resolve key =>
    match queueResolve g key with
    | some qid => (g, .named key qid)
    | none => (g, .failed .notFound)
  | .enqueue qid value =>
    match queueEnqueue g qid value with
    | (g, .ok) => (g, .enqueued qid value)
    | (g, .notFound) => (g, .failed .notFound)
    | (g, .empty) => (g, .failed .empty)
  | .dequeue guest qid returnDataPtr returnSizePtr =>
    match queueDequeue g qid with
    | (g, .ok, some bytes) =>
      match writeAllocPair guest bytes returnDataPtr returnSizePtr with
      | .ok () => (g, .delivered qid bytes)
      | .error status => (g, .lost qid bytes status)
    | (g, .notFound, _) => (g, .failed .notFound)
    | (g, _, _) => (g, .failed .empty)

def step (s : State) (call : Call) : State :=
  let (g, event) := perform s.registry call
  { registry := g, events := s.events ++ [event] }

def run (calls : List Call) : State :=
  calls.foldl step { registry := .default, events := [] }

/-! ## Messages -/

def Event.enqueuedTo (qid : Nat) : Event → Option Bytes
  | .enqueued q message => if q = qid then some message else none
  | _ => none

def Event.deliveredFrom (qid : Nat) : Event → Option Bytes
  | .delivered q message => if q = qid then some message else none
  | _ => none

/-- Whether or not it has reached the guest. -/
def Event.takenFrom (qid : Nat) : Event → Option Bytes
  | .delivered q message | .lost q message _ => if q = qid then some message else none
  | _ => none

def State.queued (s : State) (qid : Nat) : List Bytes :=
  (s.registry.byId qid).getD []

/-- What guests can rely on. -/
structure KeepsMessages (s : State) : Prop where
  distinct : ∀ key key' qid, .named key qid ∈ s.events → .named key' qid ∈ s.events → key = key'
  complete : ∀ qid, s.events.filterMap (·.deliveredFrom qid) ++ s.queued qid =
    s.events.filterMap (·.enqueuedTo qid)

/-- The memory ends after these places. -/
def Fits (memory : Option Nat) (places : List (Nat × Nat)) : Prop :=
  ∃ size ∈ memory, ∀ place ∈ places, place.1 + place.2 ≤ size

/-- The guest has a memory.  Its allocator answers to the length of the message, which an empty
message does not need, and then the message and the two numbers of four bytes fit into the memory
at their places. -/
def Guest.HasRoom (guest : Guest) (message : Bytes) (returnDataPtr returnSizePtr : Nat) : Prop :=
  guest.memory.isSome ∧
    if message = [] then Fits guest.memory [(returnDataPtr, 4), (returnSizePtr, 4)]
    else ∃ alloc ptr memory, guest.alloc = some alloc ∧
      alloc message.length = some (ptr, memory) ∧
      Fits memory [(ptr, message.length), (returnDataPtr, 4), (returnSizePtr, 4)]

/-- A guest that takes a message has room for it. -/
def HasRoom (s : State) : Call → Prop
  | .dequeue guest qid returnDataPtr returnSizePtr =>
    ∀ message ∈ (s.queued qid).head?, guest.HasRoom message returnDataPtr returnSizePtr
  | _ => True

/-- The queues that are registered. -/
def registered (calls : List Call) : Finset (String × String) :=
  (calls.filterMap fun
    | .register key => some key
    | _ => none).toFinset

/-! ## The registry in a run -/

/-- The registry after calls that have registered some queues. -/
structure Registered (keys : Finset (String × String)) (s : State) : Prop where
  nextId : s.registry.nextId = keys.card
  byName : ∀ key, (s.registry.byName key).isSome ↔ key ∈ keys
  byName_le : ∀ key qid, s.registry.byName key = some qid → qid ≤ s.registry.nextId
  injective : ∀ key key' qid, s.registry.byName key = some qid →
    s.registry.byName key' = some qid → key = key'
  byId_le : ∀ qid, (s.registry.byId qid).isSome → qid ≤ s.registry.nextId
  named : ∀ key qid, .named key qid ∈ s.events → s.registry.byName key = some qid
  fifo : ∀ qid, s.events.filterMap (·.takenFrom qid) ++ s.queued qid =
    s.events.filterMap (·.enqueuedTo qid)

variable {keys : Finset (String × String)} {s : State}

theorem registered_init : Registered ∅ { registry := .default, events := [] } := by
  constructor <;> simp [SharedQueueRegistry.default, State.queued]

variable (h : Registered keys s)
include h

/-- A call that leaves the names as they are. -/
theorem Registered.keep (byId : Nat → Option (List Bytes)) {event : Event}
    (hn : ∀ key qid, event = .named key qid → s.registry.byName key = some qid)
    (hId : ∀ qid, (byId qid).isSome → (s.registry.byId qid).isSome)
    (hFifo : ∀ qid, (event.takenFrom qid).toList ++ (byId qid).getD [] =
      s.queued qid ++ (event.enqueuedTo qid).toList) : Registered keys
      { registry := { s.registry with byId := byId }, events := s.events ++ [event] } := by
  refine { h with byId_le := ?_, named := ?_, fifo := ?_ }
  · intro qid hSome
    exact h.byId_le qid (hId qid hSome)
  · intro key qid hMem
    rcases List.mem_append.mp hMem with hMem | hMem
    · exact h.named key qid hMem
    · exact hn key qid (List.mem_singleton.mp hMem).symm
  · intro qid
    have hLast : ∀ f : Event → Option Bytes, [event].filterMap f = (f event).toList := by
      intro f
      cases hf : f event <;> simp [hf]
    show List.filterMap _ (_ ++ _) ++ (byId qid).getD [] = List.filterMap _ (_ ++ _)
    rw [List.filterMap_append, List.filterMap_append, hLast, hLast, List.append_assoc, hFifo,
      ← List.append_assoc, h.fifo]

/-- A call without an effect. -/
theorem Registered.same {event : Event}
    (hn : ∀ key qid, event = .named key qid → s.registry.byName key = some qid)
    (ht : ∀ qid, event.takenFrom qid = none) (he : ∀ qid, event.enqueuedTo qid = none) :
    Registered keys { s with events := s.events ++ [event] } := by
  refine h.keep s.registry.byId hn (fun _ => id) fun qid => ?_
  rw [ht, he]
  exact (append_nil _).symm

/-- A call that changes one queue. -/
theorem Registered.queue (event : Event) {qid : Nat} {q q' : List Bytes}
    (hq : s.registry.byId qid = some q) (hn : ∀ key qid, event ≠ .named key qid)
    (ho : ∀ other, qid ≠ other → event.takenFrom other = none ∧ event.enqueuedTo other = none)
    (hFifo : (event.takenFrom qid).toList ++ q' = q ++ (event.enqueuedTo qid).toList) :
    Registered keys
      { registry := { s.registry with byId := update s.registry.byId qid (some q') }
        events := s.events ++ [event] } := by
  refine h.keep _ (fun key other he => absurd he (hn key other)) (fun other hSome => ?_)
    fun other => ?_
  · by_cases hOther : other = qid
    · rw [hOther, hq]
      rfl
    · rwa [update_of_ne hOther] at hSome
  · by_cases hOther : other = qid
    · rw [hOther, update_self, State.queued, hq]
      exact hFifo
    · obtain ⟨ht, he⟩ := ho other (Ne.symm hOther)
      rw [ht, he, update_of_ne hOther]
      exact (append_nil _).symm

/-- A new queue, with a number that is not in use. -/
theorem Registered.add {key : String × String} {qid : Nat}
    (hk : key ∉ keys) (hq : qid = s.registry.nextId + 1) : Registered (insert key keys)
      { registry :=
          { byId := update s.registry.byId qid (some [])
            byName := update s.registry.byName key (some qid)
            nextId := qid }
        events := s.events ++ [.named key qid] } := by
  have hNone : s.registry.byId qid = none := by
    by_contra hSome
    have hLe := h.byId_le qid (isSome_iff_ne_none.mpr hSome)
    omega
  have hName : s.registry.byName key = none := by
    by_contra hSome
    exact hk ((h.byName key).mp (isSome_iff_ne_none.mpr hSome))
  constructor
  case nextId => rw [card_insert_of_notMem hk, ← h.nextId, hq]
  case byName =>
    intro other
    by_cases ho : other = key
    · simp [ho]
    · simp [ho, h.byName]
  case byName_le =>
    intro other id hOther
    simp only [update_apply] at hOther
    split_ifs at hOther with ho
    · exact (some.inj hOther).ge
    · have hLe := h.byName_le other id hOther
      show id ≤ qid
      omega
  case injective =>
    intro first second id hFirst hSecond
    simp only [update_apply] at hFirst hSecond
    -- an older name has a smaller number
    have hOld : ∀ other, s.registry.byName other = some id → some qid ≠ some id := by
      intro other hOther he
      have hLe := h.byName_le other id hOther
      have := some.inj he
      omega
    split_ifs at hFirst hSecond with h₁ h₂ h₂
    · rw [h₁, h₂]
    · exact absurd hFirst (hOld second hSecond)
    · exact absurd hSecond (hOld first hFirst)
    · exact h.injective first second id hFirst hSecond
  case byId_le =>
    intro id hSome
    simp only [update_apply] at hSome
    split_ifs at hSome with hId
    · exact hId.le
    · have hLe := h.byId_le id hSome
      show id ≤ qid
      omega
  case named =>
    intro other id hMem
    simp only [update_apply]
    rcases mem_append.mp hMem with hMem | hMem
    · have hOther := h.named other id hMem
      rw [if_neg, hOther]
      rintro rfl
      rw [hName] at hOther
      cases hOther
    · cases List.mem_singleton.mp hMem
      exact if_pos rfl
  case fifo =>
    intro id
    have hFifo := h.fifo id
    have hQueue : (update s.registry.byId qid (some []) id).getD [] = s.queued id := by
      rw [update_apply, State.queued]
      split_ifs with hId
      · rw [hId, hNone]
        rfl
      · rfl
    show List.filterMap _ (_ ++ _) ++ _ = List.filterMap _ (_ ++ _)
    rw [List.filterMap_append, List.filterMap_append]
    simpa [Event.takenFrom, Event.enqueuedTo, State.queued, hQueue] using hFifo

theorem Registered.register (key : String × String) (hf : (insert key keys).card < 2 ^ 32) :
    Registered (insert key keys) (step s (.register key)) := by
  simp only [step, perform, queueRegister]
  cases hk : s.registry.byName key with
  | some qid =>
    rw [insert_eq_of_mem ((h.byName key).mp (by rw [hk]; rfl))]
    refine h.same (fun key' qid' he => ?_) (fun _ => rfl) fun _ => rfl
    cases he
    exact hk
  | none =>
    have hNew : key ∉ keys := by
      rw [← h.byName, hk]
      exact Bool.false_ne_true
    refine h.add hNew ?_
    rw [card_insert_of_notMem hNew, ← h.nextId] at hf
    rw [Nat.mod_eq_of_lt hf]
    omega

theorem Registered.step {call : Call}
    (hc : ∀ key, call ≠ .register key) : Registered keys (step s call) := by
  have hFailed : ∀ status,
      Registered keys { s with events := s.events ++ [.failed status] } := by
    intro status
    exact h.same (fun _ _ he => nomatch he) (fun _ => rfl) fun _ => rfl
  cases call with
  | register key => exact absurd rfl (hc key)
  | resolve key =>
    simp only [SharedQueues.step, perform, queueResolve]
    cases hk : s.registry.byName key with
    | none => exact hFailed _
    | some qid =>
      refine h.same (fun key' qid' he => ?_) (fun _ => rfl) fun _ => rfl
      cases he
      exact hk
  | enqueue qid value =>
    simp only [SharedQueues.step, perform, queueEnqueue]
    cases hq : s.registry.byId qid with
    | none => exact hFailed _
    | some q =>
      refine h.queue (.enqueued qid value) hq (fun _ _ he => nomatch he)
        (fun other ho => ⟨rfl, if_neg ho⟩) ?_
      rw [Event.enqueuedTo, if_pos rfl]
      rfl
  | dequeue guest qid returnDataPtr returnSizePtr =>
    simp only [SharedQueues.step, perform, queueDequeue]
    cases hq : s.registry.byId qid with
    | none => exact hFailed _
    | some q =>
      cases q with
      | nil => exact hFailed _
      | cons message q =>
        have hTaken : (if qid = qid then some message else none).toList ++ q =
            message :: q ++ (none : Option Bytes).toList := by
          simp
        dsimp only
        cases writeAllocPair guest message returnDataPtr returnSizePtr with
        | ok done =>
          exact h.queue (.delivered qid message) hq (fun _ _ he => nomatch he)
            (fun other ho => ⟨if_neg ho, rfl⟩) hTaken
        | error status =>
          exact h.queue (.lost qid message status) hq (fun _ _ he => nomatch he)
            (fun other ho => ⟨if_neg ho, rfl⟩) hTaken

omit h

variable (calls : List Call)

theorem run_concat (call : Call) : run (calls ++ [call]) = step (run calls) call :=
  foldl_concat ..

theorem registered_run (hf : (registered calls).card < 2 ^ 32) :
    Registered (registered calls) (run calls) := by
  induction calls using reverseRecOn with
  | nil => exact registered_init
  | append_singleton calls call ih =>
    rw [run_concat]
    cases call with
    | register key =>
      have hKeys : registered (calls ++ [.register key]) = insert key (registered calls) := by
        simp [registered, union_comm]
      rw [hKeys] at hf ⊢
      exact (ih ((card_le_card (subset_insert _ _)).trans_lt hf)).register key hf
    | _ =>
      simp only [registered, filterMap_append, filterMap_cons, filterMap_nil,
        append_nil] at hf ⊢
      exact (ih hf).step (by simp)

/-! ## No message is lost -/

theorem length_delivered_le (qid : Nat) (events : List Event) :
    (events.filterMap (·.deliveredFrom qid)).length ≤
      (events.filterMap (·.takenFrom qid)).length := by
  induction events with
  | nil => rfl
  | cons event events ih =>
    simp only [filterMap_cons]
    cases event with
    | delivered q message =>
      simp only [Event.deliveredFrom, Event.takenFrom]
      split_ifs
      · exact Nat.succ_le_succ ih
      · exact ih
    | lost q message status =>
      simp only [Event.deliveredFrom, Event.takenFrom]
      split_ifs
      · exact ih.trans (Nat.le_succ _)
      · exact ih
    | _ => exact ih

/-- What is taken is delivered as long as nothing is lost. -/
theorem delivered_eq_taken_iff (events : List Event) :
    (∀ qid, events.filterMap (·.deliveredFrom qid) = events.filterMap (·.takenFrom qid)) ↔
      ∀ qid message status, .lost qid message status ∉ events := by
  constructor
  · intro h qid message status hMem
    obtain ⟨before, after, rfl⟩ := append_of_mem hMem
    have hLength := congrArg length (h qid)
    have hBefore := length_delivered_le qid before
    have hAfter := length_delivered_le qid after
    simp only [filterMap_append, filterMap_cons, Event.deliveredFrom, Event.takenFrom,
      if_true, length_append, length_cons] at hLength hBefore hAfter
    omega
  · intro h qid
    refine filterMap_congr fun event hMem => ?_
    cases event with
    | lost q message status => exact absurd hMem (h q message status)
    | _ => rfl

theorem write_eq_ok_iff {memory : Option Nat} {ptr size : Nat} :
    write memory ptr size = .ok () ↔ Fits memory [(ptr, size)] := by
  cases memory <;> simp [write, Fits]

theorem writeAllocPair_eq_ok_iff {guest : Guest} {message : Bytes} {dataPtr sizePtr : Nat} :
    writeAllocPair guest message dataPtr sizePtr = .ok () ↔
      guest.HasRoom message dataPtr sizePtr := by
  have hBind : ∀ {x y : Except Status Unit},
      (x >>= fun _ => y) = .ok () ↔ x = .ok () ∧ y = .ok () := by
    intro x y
    cases x <;> simp [bind, Except.bind]
  rw [writeAllocPair, Guest.HasRoom, hBind, write_eq_ok_iff]
  refine and_congr (by cases guest.memory <;> simp [Fits]) ?_
  split_ifs with he
  · rw [hBind, write_eq_ok_iff, write_eq_ok_iff]
    cases guest.memory <;> simp [Fits]
  · cases hAlloc : guest.alloc with
    | none => simp
    | some alloc =>
      cases hPtr : alloc message.length with
      | none => simp [hPtr]
      | some answer =>
        obtain ⟨ptr, memory⟩ := answer
        simp only [hPtr, hBind, write_eq_ok_iff]
        cases memory <;> simp [Fits, hPtr]

theorem lost_notMem_step_iff (s : State) (call : Call) :
    (∀ qid message status, .lost qid message status ∉ (step s call).events) ↔
      (∀ qid message status, .lost qid message status ∉ s.events) ∧ HasRoom s call := by
  have hLast : ∀ {event : Event} {P : Prop}, ((∀ qid message status,
      event ≠ .lost qid message status) ↔ P) → ((∀ qid message status,
        .lost qid message status ∉ s.events ++ [event]) ↔
          (∀ qid message status, .lost qid message status ∉ s.events) ∧ P) := by
    intro event P hP
    simp only [List.mem_append, List.mem_singleton, not_or, forall_and, ← hP, ne_eq, eq_comm]
  refine hLast ?_
  cases call with
  | register key => simp [HasRoom]
  | resolve key =>
    simp only [HasRoom]
    cases queueResolve s.registry key <;> simp
  | enqueue qid value =>
    simp only [HasRoom, queueEnqueue]
    cases s.registry.byId qid <;> simp
  | dequeue guest qid dataPtr sizePtr =>
    simp only [HasRoom, queueDequeue, State.queued]
    rcases s.registry.byId qid with _ | _ | ⟨message, q⟩
    · simp
    · simp
    · have hRoom := @writeAllocPair_eq_ok_iff guest message dataPtr sizePtr
      simp only [getD_some, head?_cons, mem_some_iff, forall_eq', ← hRoom]
      cases writeAllocPair guest message dataPtr sizePtr <;> simp

theorem lost_notMem_run_iff :
    (∀ qid message status, .lost qid message status ∉ (run calls).events) ↔
      Along step HasRoom { registry := .default, events := [] } calls := by
  induction calls using reverseRecOn with
  | nil => simp [run, Along]
  | append_singleton calls call ih =>
    rw [run_concat, lost_notMem_step_iff, ih, along_append]
    simp [Along, run]

/-- The messages of a queue reach guests in their order, each once, exactly if every guest has
room for the message that it takes. -/
theorem keepsMessages_iff_hasRoom (hf : (registered calls).card < 2 ^ 32) :
    KeepsMessages (run calls) ↔
      Along step HasRoom { registry := .default, events := [] } calls := by
  have h := registered_run calls hf
  rw [← lost_notMem_run_iff, ← delivered_eq_taken_iff]
  constructor
  · intro hk qid
    exact append_cancel_right ((hk.complete qid).trans (h.fifo qid).symm)
  · intro hd
    refine ⟨fun key key' qid hKey hKey' => ?_, fun qid => ?_⟩
    · exact h.injective key key' qid (h.named key qid hKey) (h.named key' qid hKey')
    · rw [hd qid]
      exact h.fifo qid

/-- A guest whose allocator has this answer. -/
def guestWith (answer : Option (Nat × Option Nat)) : Guest where
  memory := some 64
  alloc := some fun _ => answer

def oneMessage (guest : Guest) : List Call :=
  [.register ("vm", "jobs"), .enqueue 1 [7], .dequeue guest 1 0 4]

theorem oneMessage_keepsMessages :
    KeepsMessages (run (oneMessage (guestWith (some (8, some 64))))) := by
  refine (keepsMessages_iff_hasRoom _ (by decide)).mpr ⟨trivial, trivial, ?_, trivial⟩
  rintro message ⟨⟩
  exact ⟨rfl, _, 8, some 64, rfl, rfl, 64, rfl, by decide⟩

/-- The allocator traps after the message was taken from its queue. -/
theorem oneMessage_not_keepsMessages : ¬ KeepsMessages (run (oneMessage (guestWith none))) := by
  intro h
  have hAll := h.complete 1
  revert hAll
  decide

end Spacegate.PluginWasm.SharedQueues
