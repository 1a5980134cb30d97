import Mathlib.Data.List.Pairwise
import PipelineEditor.Proofs.Deferral.Tick
import PipelineEditor.Proofs.History

/-! Which deferred actions fire, and when. Their owner puts actions off, cancels them and lets go of
all; between these calls there are ticks. What is said here holds whatever the order is in which the
runtime resumes tasks. -/
namespace PipelineEditor

/-- What the owner of deferred actions does, and the ticks in between in which tasks finish. -/
inductive DeferralCommand
  | start
  | cancel (handle : Handle)
  | tick
  | drop
deriving DecidableEq, Repr

/-- Deferred actions, and whether their owner has let go of them. -/
structure OwnedDeferral where
  deferral : Deferral
  dropped : Bool
deriving DecidableEq, Repr

/-- What comes of one command: the handle that is given out, and those that fire. -/
structure DeferralReply where
  given : Option Handle
  fired : List Handle
deriving DecidableEq, Repr

namespace OwnedDeferral

/-- No actions yet. -/
def fresh : OwnedDeferral := ⟨.empty, false⟩

/-- One command. Who has let go of all actions cannot put off or cancel any more. -/
def step (r : Runtime) (o : OwnedDeferral) : DeferralCommand → DeferralReply × OwnedDeferral
  | .start =>
    if o.dropped then (⟨none, []⟩, o)
    else
      let (h, d) := o.deferral.start
      (⟨some h, []⟩, { o with deferral := d })
  | .cancel h => (⟨none, []⟩, if o.dropped then o else { o with deferral := o.deferral.cancel h })
  | .tick =>
    let (fired, d) := o.deferral.tick r
    (⟨none, fired⟩, { o with deferral := d })
  | .drop => (⟨none, []⟩, ⟨o.deferral.cancelAll, true⟩)

/-- The replies to a row of commands. -/
def replies (r : Runtime) (o : OwnedDeferral) : List DeferralCommand → List DeferralReply
  | [] => []
  | c :: cs => (o.step r c).1 :: (o.step r c).2.replies r cs

/-- What is left after a row of commands. -/
def runAll (r : Runtime) (o : OwnedDeferral) (commands : List DeferralCommand) : OwnedDeferral :=
  commands.foldl (fun o c => (o.step r c).2) o

/-- All handles that are given out, in turn. -/
def given (r : Runtime) (commands : List DeferralCommand) : List Handle :=
  (fresh.replies r commands).filterMap (·.given)

/-- All handles that fire, in turn. -/
def log (r : Runtime) (commands : List DeferralCommand) : List Handle :=
  (fresh.replies r commands).flatMap (·.fired)

/-- A handle was given out, and since then there was no tick, and it was neither cancelled nor
dropped. -/
def Waiting (r : Runtime) (commands : List DeferralCommand) (h : Handle) : Prop :=
  ∃ before later, commands = before ++ .start :: later ∧
    ((fresh.runAll r before).step r .start).1.given = some h ∧
    .tick ∉ later ∧ .cancel h ∉ later ∧ .drop ∉ later

variable (r : Runtime)

theorem replies_append (o : OwnedDeferral) (before later : List DeferralCommand) :
    o.replies r (before ++ later) = o.replies r before ++ (o.runAll r before).replies r later := by
  induction before generalizing o with
  | nil => rfl
  | cons c cs ih => exact congrArg ((o.step r c).1 :: ·) (ih _)

theorem runAll_append (o : OwnedDeferral) (before later : List DeferralCommand) :
    o.runAll r (before ++ later) = (o.runAll r before).runAll r later :=
  List.foldl_append

theorem given_concat (commands : List DeferralCommand) (c : DeferralCommand) :
    given r (commands ++ [c]) =
      given r commands ++ ((fresh.runAll r commands).step r c).1.given.toList := by
  rw [given, replies_append, List.filterMap_append]
  cases h : ((fresh.runAll r commands).step r c).1.given <;> simp [replies, given, h]

theorem log_concat (commands : List DeferralCommand) (c : DeferralCommand) :
    log r (commands ++ [c]) = log r commands ++ ((fresh.runAll r commands).step r c).1.fired := by
  rw [log, replies_append, List.flatMap_append]
  simp [replies, log]

theorem waiting_concat (commands : List DeferralCommand) (c : DeferralCommand) (h : Handle) :
    Waiting r (commands ++ [c]) h ↔
      (c = .start ∧ ((fresh.runAll r commands).step r .start).1.given = some h) ∨
      (Waiting r commands h ∧ c ≠ .tick ∧ c ≠ .cancel h ∧ c ≠ .drop) := by
  constructor
  · rintro ⟨before, later, cut, given, ticks, cancels, drops⟩
    rcases concat_eq_cut_iff.1 cut with ⟨rfl, rfl, -⟩ | ⟨later, rfl, rfl⟩
    · exact .inl ⟨rfl, given⟩
    · simp only [List.mem_append, List.mem_singleton, not_or] at ticks cancels drops
      exact .inr ⟨⟨before, later, rfl, given, ticks.1, cancels.1, drops.1⟩,
        Ne.symm ticks.2, Ne.symm cancels.2, Ne.symm drops.2⟩
  · rintro (⟨rfl, given⟩ | ⟨⟨before, later, rfl, given, ticks, cancels, drops⟩, tick, cancel, drop⟩)
    · exact ⟨commands, [], rfl, given, List.not_mem_nil, List.not_mem_nil, List.not_mem_nil⟩
    · exact ⟨before, later ++ [c], by simp, given, by simp [ticks, tick.symm],
        by simp [cancels, cancel.symm], by simp [drops, drop.symm]⟩

/-! Between commands no task is on its way out, and those that can be cancelled are in the order of
their handles. -/

/-- What holds between commands. -/
structure Orderly (o : OwnedDeferral) : Prop where
  still : o.deferral.leaving = []
  sorted : o.deferral.handles.Pairwise (· < ·)
  below : ∀ h ∈ o.deferral.handles, h < o.deferral.next
  left : o.dropped → o.deferral.handles = []

variable {r} {o : OwnedDeferral}

theorem Orderly.nodup (ho : o.Orderly) : o.deferral.handles.Nodup :=
  ho.sorted.imp Nat.ne_of_lt

theorem Orderly.owed_eq (ho : o.Orderly) : o.deferral.owed = o.deferral.handles := by
  rw [Deferral.owed, ho.still]
  rfl

theorem orderly_fresh : fresh.Orderly :=
  ⟨rfl, .nil, fun _ h => absurd h List.not_mem_nil, fun _ => rfl⟩

theorem step_tick (ho : o.Orderly) :
    o.step r .tick =
      (⟨none, r.order o.deferral.handles⟩, { o with deferral := o.deferral.cancelAll }) := by
  rw [step, Deferral.tick_eq r ho.still ho.nodup]

theorem orderly_cancel (ho : o.Orderly) (h : Handle) :
    Orderly { o with deferral := o.deferral.cancel h } where
  still := ho.still
  sorted := by
    rw [Deferral.handles_cancel]
    exact ho.sorted.filter _
  below g hg := by
    rw [Deferral.handles_cancel] at hg
    exact ho.below g (List.mem_filter.1 hg).1
  left gone := by
    rw [Deferral.handles_cancel, ho.left gone]
    rfl

theorem orderly_cancelAll (ho : o.Orderly) (dropped : Bool) :
    Orderly ⟨o.deferral.cancelAll, dropped⟩ :=
  ⟨ho.still, .nil, fun _ h => absurd h List.not_mem_nil, fun _ => rfl⟩

theorem orderly_step (ho : o.Orderly) (c : DeferralCommand) : (o.step r c).2.Orderly := by
  cases c with
  | start =>
    simp only [step]
    split
    · exact ho
    next owned =>
      have handles := o.deferral.handles_start
      refine ⟨ho.still, ?_, fun h hm => ?_, fun gone => absurd gone owned⟩
      · exact handles ▸ List.pairwise_append.2
          ⟨ho.sorted, List.pairwise_singleton _ _, by simpa using ho.below⟩
      · rcases List.mem_append.1 (handles ▸ hm) with hm | hm
        · exact Nat.lt_succ_of_lt (ho.below h hm)
        · exact List.mem_singleton.1 hm ▸ Nat.lt_succ_self _
  | cancel h =>
    simp only [step]
    split
    · exact ho
    · exact orderly_cancel ho h
  | tick =>
    rw [step_tick ho]
    exact orderly_cancelAll ho _
  | drop => exact orderly_cancelAll ho true

theorem orderly_runAll (ho : o.Orderly) (commands : List DeferralCommand) :
    (o.runAll r commands).Orderly := by
  induction commands generalizing o with
  | nil => exact ho
  | cons c cs ih => exact ih (orderly_step ho c)

theorem orderly_run (r : Runtime) (commands : List DeferralCommand) :
    (fresh.runAll r commands).Orderly :=
  orderly_runAll orderly_fresh commands

theorem later_step (ho : o.Orderly) (c : DeferralCommand) :
    o.deferral.Later (o.step r c).2.deferral := by
  cases c with
  | start =>
    simp only [step]
    split
    · exact .refl _
    · exact Deferral.later_start _
  | cancel h =>
    simp only [step]
    split
    · exact .refl _
    · exact Deferral.later_cancel _ h
  | tick =>
    rw [step_tick ho]
    exact Deferral.later_cancelAll _
  | drop => exact Deferral.later_cancelAll _

/-- Only a new task is given a handle: the next one. -/
theorem given_step {c : DeferralCommand} {h : Handle} (given : (o.step r c).1.given = some h) :
    c = .start ∧ h = o.deferral.next ∧ (o.step r c).2.deferral.next = h + 1 := by
  cases c with
  | start =>
    simp only [step] at given ⊢
    split at given
    · simp at given
    next owned =>
      obtain rfl : o.deferral.next = h := Option.some_inj.1 given
      rw [if_neg owned]
      simp [Deferral.start]
  | cancel | tick | drop => simp [step] at given

/-- Nothing fires between ticks. -/
theorem fired_eq_nil {c : DeferralCommand} (other : c ≠ .tick) : (o.step r c).1.fired = [] := by
  cases c with
  | start =>
    simp only [step]
    split <;> rfl
  | tick => exact absurd rfl other
  | cancel | drop => rfl

/-- In a tick everything fires that can be cancelled then. -/
theorem mem_fired_step (ho : o.Orderly) {c : DeferralCommand} {h : Handle} :
    h ∈ (o.step r c).1.fired ↔ c = .tick ∧ h ∈ o.deferral.handles := by
  by_cases now : c = .tick
  · rw [now, step_tick ho]
    simpa using (r.perm _).mem_iff
  · simp [fired_eq_nil now, now]

theorem mem_handles_step (ho : o.Orderly) {c : DeferralCommand} {h : Handle} :
    h ∈ (o.step r c).2.deferral.handles ↔
      (c = .start ∧ (o.step r .start).1.given = some h) ∨
      (h ∈ o.deferral.handles ∧ c ≠ .tick ∧ c ≠ .cancel h ∧ c ≠ .drop) := by
  cases c with
  | start =>
    simp only [step]
    split
    · simp
    · simp [Deferral.handles, Deferral.start, or_comm, eq_comm]
  | cancel g =>
    simp only [step]
    split
    next gone => simp [ho.left gone]
    · simp [Deferral.handles_cancel, @eq_comm _ h g]
  | tick =>
    rw [step_tick ho]
    simp [Deferral.handles, Deferral.cancelAll]
  | drop => simp [step, Deferral.handles, Deferral.cancelAll]

/-- The owner has let go of all actions as soon as it says so, and never takes them up again. -/
theorem dropped_runAll (r : Runtime) (commands : List DeferralCommand) :
    (fresh.runAll r commands).dropped = true ↔ .drop ∈ commands := by
  induction commands using List.reverseRecOn with
  | nil => simp [runAll, fresh]
  | append_singleton commands c ih =>
    have after (o : OwnedDeferral) : (o.step r c).2.dropped = true ↔ o.dropped = true ∨ .drop = c := by
      cases c with
      | start | cancel =>
        simp only [step]
        split <;> simp_all
      | tick | drop => simp [step]
    rw [runAll_append, List.mem_append, List.mem_singleton, ← ih]
    exact after (fresh.runAll r commands)

/-- A handle is given out for every action that is put off. -/
theorem given_start (r : Runtime) (commands : List DeferralCommand) :
    ((fresh.runAll r commands).step r .start).1.given.isSome = true ↔ .drop ∉ commands := by
  rw [← dropped_runAll r]
  simp only [step]
  split <;> simp_all

/-- What can be cancelled after a run is what is waiting. -/
theorem mem_handles_runAll (r : Runtime) (commands : List DeferralCommand) (h : Handle) :
    h ∈ (fresh.runAll r commands).deferral.handles ↔ Waiting r commands h := by
  induction commands using List.reverseRecOn with
  | nil =>
    constructor
    · exact fun hm => absurd hm List.not_mem_nil
    · rintro ⟨before, later, cut, -⟩
      simp at cut
  | append_singleton commands c ih =>
    rw [waiting_concat, runAll_append, ← ih]
    exact mem_handles_step (orderly_run r commands)

theorem given_lt (r : Runtime) (commands : List DeferralCommand) :
    ∀ h ∈ given r commands, h < (fresh.runAll r commands).deferral.next := by
  induction commands using List.reverseRecOn with
  | nil => exact fun _ hm => absurd hm List.not_mem_nil
  | append_singleton commands c ih =>
    intro h hm
    have later := later_step (r := r) (orderly_run r commands) c
    rw [runAll_append]
    rcases List.mem_append.1 (given_concat r commands c ▸ hm) with hm | hm
    · exact Nat.lt_of_lt_of_le (ih h hm) later.next
    · obtain ⟨-, -, next⟩ := given_step (Option.mem_toList.1 hm)
      exact Nat.lt_of_lt_of_eq (Nat.lt_succ_self h) next.symm

/-- Handles are given out in increasing order. -/
theorem given_sorted (r : Runtime) (commands : List DeferralCommand) :
    (given r commands).Pairwise (· < ·) := by
  induction commands using List.reverseRecOn with
  | nil => exact .nil
  | append_singleton commands c ih =>
    rw [given_concat]
    refine List.pairwise_append.2 ⟨ih, ?_, fun g hg h hm => ?_⟩
    · cases ((fresh.runAll r commands).step r c).1.given <;> simp
    · rw [(given_step (Option.mem_toList.1 hm)).2.1]
      exact given_lt r commands g hg

theorem spent_of_log (r : Runtime) (commands : List DeferralCommand) :
    ∀ h ∈ log r commands, (fresh.runAll r commands).deferral.Spent h := by
  induction commands using List.reverseRecOn with
  | nil => exact fun _ hm => absurd hm List.not_mem_nil
  | append_singleton commands c ih =>
    intro h hm
    have ho := orderly_run r commands
    rw [runAll_append]
    rcases List.mem_append.1 (log_concat r commands c ▸ hm) with hm | hm
    · exact (ih h hm).later (later_step ho c)
    · obtain ⟨rfl, pending⟩ := (mem_fired_step ho).1 hm
      have after := orderly_step (r := r) ho .tick
      refine ⟨Nat.lt_of_lt_of_le (ho.below h pending) (later_step ho _).next, ?_⟩
      change h ∉ ((fresh.runAll r commands).step r .tick).2.deferral.owed
      rw [after.owed_eq, mem_handles_step ho]
      simp

/-- No handle fires twice. -/
theorem log_nodup (r : Runtime) (commands : List DeferralCommand) : (log r commands).Nodup := by
  induction commands using List.reverseRecOn with
  | nil => exact .nil
  | append_singleton commands c ih =>
    have ho := orderly_run r commands
    rw [log_concat]
    refine List.nodup_append.2 ⟨ih, ?_, fun h past g now same => ?_⟩
    · by_cases now : c = .tick
      · rw [now, step_tick ho]
        exact (r.perm _).nodup_iff.2 ho.nodup
      · rw [fired_eq_nil now]
        exact List.nodup_nil
    · refine (spent_of_log r commands h past).gone ?_
      rw [ho.owed_eq, same]
      exact ((mem_fired_step ho).1 now).2

/-! A run in which a handle is cancelled, and the same run without that, are alike apart from this
handle. -/

/-- Deferred actions but for one. -/
def apart (o : OwnedDeferral) (h : Handle) : OwnedDeferral :=
  { o with deferral := o.deferral.cancel h }

theorem apart_apart (o : OwnedDeferral) (h : Handle) : (o.apart h).apart h = o.apart h := by
  simp [apart, Deferral.cancel]

theorem step_apart (ho : o.Orderly) (h : Handle) (c : DeferralCommand) :
    ((o.apart h).step r c).1.given = (o.step r c).1.given ∧
      ((o.apart h).step r c).2.apart h = (o.step r c).2.apart h := by
  cases c with
  | start =>
    simp only [step]
    cases gone : o.dropped <;> simp [gone, apart, Deferral.start, Deferral.cancel]
  | cancel g =>
    simp only [step]
    cases gone : o.dropped <;>
      simp [gone, apart, Deferral.cancel, Bool.and_comm]
  | tick =>
    rw [step_tick ho, step_tick (o := o.apart h) (orderly_cancel ho h)]
    exact ⟨rfl, rfl⟩
  | drop => exact ⟨rfl, rfl⟩

/-- Two states are alike but for one handle. -/
structure Alike (h : Handle) (o e : OwnedDeferral) : Prop where
  left : o.Orderly
  right : e.Orderly
  same : o.apart h = e.apart h

theorem Alike.step {h : Handle} {o e : OwnedDeferral} (a : Alike h o e) (c : DeferralCommand) :
    (o.step r c).1.given = (e.step r c).1.given ∧ Alike h (o.step r c).2 (e.step r c).2 := by
  obtain ⟨given, after⟩ := step_apart (r := r) a.left h c
  obtain ⟨given', after'⟩ := step_apart (r := r) a.right h c
  rw [a.same] at given after
  exact ⟨given.symm.trans given',
    orderly_step a.left c, orderly_step a.right c, after.symm.trans after'⟩

theorem Alike.runAll {h : Handle} {o e : OwnedDeferral} (a : Alike h o e)
    (commands : List DeferralCommand) :
    (o.replies r commands).filterMap (·.given) = (e.replies r commands).filterMap (·.given) ∧
      Alike h (o.runAll r commands) (e.runAll r commands) := by
  induction commands generalizing o e with
  | nil => exact ⟨rfl, a⟩
  | cons c cs ih =>
    obtain ⟨given, after⟩ := a.step (r := r) c
    obtain ⟨givens, end_⟩ := ih after
    refine ⟨?_, end_⟩
    rw [replies, replies, List.filterMap_cons, List.filterMap_cons, given, givens]

/-- The other handles fire in the same ticks. -/
theorem Alike.fired {g h : Handle} {o e : OwnedDeferral} (a : Alike h o e) (other : g ≠ h) :
    g ∈ (o.step r .tick).1.fired ↔ g ∈ (e.step r .tick).1.fired := by
  have rest (o : OwnedDeferral) : g ∈ o.deferral.handles ↔ g ∈ (o.apart h).deferral.handles := by
    rw [apart, Deferral.handles_cancel]
    simp [other]
  rw [mem_fired_step a.left, mem_fired_step a.right, rest o, rest e, a.same]

theorem alike_cancel (ho : o.Orderly) (h : Handle) : Alike h (o.step r (.cancel h)).2 o := by
  refine ⟨orderly_step ho _, ho, ?_⟩
  simp only [step]
  split
  · rfl
  · exact apart_apart o h

/-- What fired was waiting at some tick of the run. -/
theorem mem_log (r : Runtime) (commands : List DeferralCommand) (h : Handle) :
    h ∈ log r commands ↔
      ∃ before later, commands = before ++ .tick :: later ∧ Waiting r before h := by
  induction commands using List.reverseRecOn with
  | nil =>
    constructor
    · exact fun hm => absurd hm List.not_mem_nil
    · rintro ⟨before, later, cut, -⟩
      simp at cut
  | append_singleton commands c ih =>
    rw [log_concat, List.mem_append, ih, mem_fired_step (orderly_run r commands), mem_handles_runAll]
    constructor
    · rintro (⟨before, later, rfl, waiting⟩ | ⟨rfl, waiting⟩)
      · exact ⟨before, later ++ [c], by simp, waiting⟩
      · exact ⟨commands, [], rfl, waiting⟩
    · rintro ⟨before, later, cut, waiting⟩
      rcases concat_eq_cut_iff.1 cut with ⟨rfl, rfl, -⟩ | ⟨later, rfl, rfl⟩
      · exact .inr ⟨rfl, waiting⟩
      · exact .inl ⟨before, later, rfl, waiting⟩

theorem step_cancel_of_not_waiting {commands : List DeferralCommand} {h : Handle}
    (idle : ¬Waiting r commands h) :
    ((fresh.runAll r commands).step r (.cancel h)).2 = fresh.runAll r commands := by
  have absent : ∀ t ∈ (fresh.runAll r commands).deferral.pending, t.handle ≠ h := fun t ht same =>
    idle ((mem_handles_runAll r commands h).1 (List.mem_map.2 ⟨t, ht, same⟩))
  have unchanged : (fresh.runAll r commands).deferral.cancel h =
      (fresh.runAll r commands).deferral := by
    rw [Deferral.cancel, List.filter_eq_self.2 (by simpa using absent)]
  simp only [step, unchanged, ite_self]

/-- Whatever the owner does and whenever the ticks are: handles are given out in increasing order, one
for every action that is put off before the owner lets go of all. A handle fires at most once, in the
first tick after it was given out, if it was neither cancelled nor dropped by then, and otherwise never.
Those that fire in one tick do so in the order in which the runtime resumes them, which is increasing if
it resumes them in the order of their start. It changes nothing to cancel a handle that is not waiting;
to cancel one that is changes neither what is given out nor when another one fires. The program's own
tick resumes the newest task first. -/
theorem fires_once_unless_cancelled (r : Runtime) (commands : List DeferralCommand) :
    (given r commands).Pairwise (· < ·) ∧
    (((fresh.runAll r commands).step r .start).1.given.isSome ↔ .drop ∉ commands) ∧
    (log r commands).Nodup ∧
    (∀ h, h ∈ log r commands ↔
      ∃ before later, commands = before ++ .tick :: later ∧ Waiting r before h) ∧
    (∀ c, c ≠ .tick → ((fresh.runAll r commands).step r c).1.fired = []) ∧
    (∃ ready : List Handle, ready.Pairwise (· < ·) ∧ (∀ h, h ∈ ready ↔ Waiting r commands h) ∧
      ((fresh.runAll r commands).step r .tick).1.fired = r.order ready) ∧
    (r = .oldestFirst → (((fresh.runAll r commands).step r .tick).1.fired).Pairwise (· < ·)) ∧
    (∀ h, ¬Waiting r commands h →
      ((fresh.runAll r commands).step r (.cancel h)).2 = fresh.runAll r commands) ∧
    (∀ before later h, commands = before ++ .cancel h :: later →
      given r commands = given r (before ++ later) ∧
      ∀ g, g ≠ h → (g ∈ ((fresh.runAll r commands).step r .tick).1.fired ↔
        g ∈ ((fresh.runAll r (before ++ later)).step r .tick).1.fired)) ∧
    (fresh.runAll r commands).deferral.tick .newestFirst =
      (fresh.runAll r commands).deferral.finish := by
  have ho := orderly_run r commands
  refine ⟨given_sorted r commands, given_start r commands, log_nodup r commands, mem_log r commands,
    fun c other => fired_eq_nil other, ?_, ?_, fun h idle => step_cancel_of_not_waiting idle, ?_,
    Deferral.tick_newestFirst ho.still ho.nodup⟩
  · exact ⟨_, ho.sorted, mem_handles_runAll r commands, by rw [step_tick ho]⟩
  · rintro rfl
    rw [step_tick ho]
    exact ho.sorted
  · rintro before later h rfl
    have a := alike_cancel (r := r) (orderly_run r before) h
    obtain ⟨givens, after⟩ := a.runAll (r := r) later
    constructor
    · rw [given, given, replies_append, replies_append, List.filterMap_append, List.filterMap_append,
        ← givens]
      rfl
    · intro g other
      rw [runAll_append, runAll_append]
      exact after.fired other

/-- Of three tasks that are resumed in the order of their start the second one is cancelled. The others
fire in that order, as they would have done. -/
theorem fires_once_unless_cancelled_others :
    let commands : List DeferralCommand := [.start, .start, .start, .cancel 2]
    let fired := ((fresh.runAll .oldestFirst commands).step .oldestFirst .tick).1.fired
    DeferralCommand.start ≠ .tick ∧ ¬Waiting .oldestFirst commands 2 ∧
      commands = [.start, .start, .start] ++ .cancel 2 :: [] ∧
      given .oldestFirst commands = given .oldestFirst [.start, .start, .start] ∧
      fired = [1, 3] ∧ fired.Pairwise (· < ·) ∧
      (3 ≠ 2 ∧ (3 ∈ fired ↔ 3 ∈ ((fresh.runAll .oldestFirst [.start, .start, .start]).step
        .oldestFirst .tick).1.fired)) ∧
      ((fresh.runAll .oldestFirst commands).step .oldestFirst (.cancel 2)).2 =
        fresh.runAll .oldestFirst commands := by
  intro commands fired
  have left : fired = [1, 3] := by decide
  obtain ⟨-, -, -, -, -, ⟨ready, -, waiting, order⟩, increasing, unmoved, others, -⟩ :=
    fires_once_unless_cancelled .oldestFirst commands
  have gone : ¬Waiting .oldestFirst commands 2 := fun w => by
    have there : 2 ∈ ready := (waiting 2).2 w
    have listed : ready = [1, 3] := order.symm.trans left
    exact absurd (listed ▸ there) (by decide)
  obtain ⟨same, apart⟩ := others [.start, .start, .start] [] 2 rfl
  exact ⟨nofun, gone, rfl, same, left, increasing rfl, ⟨by decide, apart 3 (by decide)⟩, unmoved 2 gone⟩

/-- The program's own tick is another one: what fires in it does so in decreasing order. -/
theorem newest_fires_first (commands : List DeferralCommand) :
    ((fresh.runAll .newestFirst commands).deferral.finish.1).Pairwise (· > ·) := by
  have ho := orderly_run .newestFirst commands
  rw [← Deferral.tick_newestFirst ho.still ho.nodup, Deferral.tick_eq .newestFirst ho.still ho.nodup]
  exact List.pairwise_reverse.2 ho.sorted

example : (fresh.runAll .newestFirst [.start, .start]).deferral.finish.1 = [2, 1] := by decide

end OwnedDeferral
end PipelineEditor
