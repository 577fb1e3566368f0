import Sketch.Proofs.Machine.Calls

/-!
The statements of active calls. Main statement: where a step can fail, the innermost statement in progress in each
call is the one that began last, unless it is a loop at its test.
-/

namespace Sketch

/-! ### Heights -/

/-- A continuation stands in a stack with as many below it as its height says. -/
inductive StandsAt : List Cont → Nat → Cont → Prop where
  | top (k : Cont) (ks : List Cont) : StandsAt (k :: ks) ks.length k
  | under (k' : Cont) {k : Cont} {ks : List Cont} {height : Nat} (stands : StandsAt ks height k) :
      StandsAt (k' :: ks) height k

namespace StandsAt

variable {k : Cont} {ks new rest : List Cont} {height : Nat}

theorem lt (stands : StandsAt ks height k) : height < ks.length := by
  induction stands with
  | top => exact Nat.lt_succ_self _
  | under _ _ ih => exact Nat.lt_succ_of_lt ih

theorem append (new : List Cont) (stands : StandsAt rest height k) : StandsAt (new ++ rest) height k := by
  induction new with
  | nil => exact stands
  | cons k' new ih => exact .under k' ih

variable {k' : Cont}

theorem of_cons (stands : StandsAt (k' :: ks) height k) : StandsAt ks height k ∨ height = ks.length ∧ k = k' := by
  cases stands with
  | top => exact .inr ⟨rfl, rfl⟩
  | under _ stands => exact .inl stands

/-- What stands in a stack stands in its lower part or belongs to its upper part. -/
theorem split (stands : StandsAt (new ++ rest) height k) : StandsAt rest height k ∨ rest.length ≤ height ∧ k ∈ new := by
  induction new with
  | nil => exact .inl stands
  | cons k' new ih =>
    rcases of_cons stands with stands | ⟨same, rfl⟩
    · exact (ih stands).imp_right fun ⟨high, mem⟩ => ⟨high, List.mem_cons_of_mem _ mem⟩
    · exact .inr ⟨by simp [same], List.mem_cons_self⟩

theorem eq_of_top (stands : StandsAt (k' :: ks) ks.length k) : k = k' := by
  rcases stands.of_cons with below | ⟨-, same⟩
  · exact absurd below.lt (Nat.lt_irrefl _)
  · exact same

end StandsAt

namespace Lays

variable {tested : Bool} {new rest : List Cont}

/-- What belongs to a loop with a test is put where the loop stands. -/
theorem height {k : Cont} {height : Nat} (lays : Lays tested new) (stands : StandsAt (new ++ rest) height k)
    (ofTested : k.ofTested = true) : StandsAt rest height k ∨ height = rest.length ∧ tested = true := by
  induction lays with
  | nothing => exact .inl stands
  | head _ implies =>
    rcases StandsAt.of_cons stands with below | ⟨same, rfl⟩
    · exact .inl below
    · exact .inr ⟨same, implies ofTested⟩
  | block body _ ih =>
    rcases StandsAt.of_cons stands with below | ⟨-, rfl⟩
    · exact ih below
    · cases ofTested

end Lays

theorem Control.isEval_of_isDone {control : Control} (done : control.isDone = true) : control.isEval = false := by
  cases control with
  | eval => cases done
  | exec | deliver | proceed | unwind => rfl

/-! ### One call -/

namespace Call

/-- The statements of a call are nested, each loop at its test is among them, and one of them began last. -/
structure Keeps (base : Nat) (ks : List Cont) (c : Call) : Prop where
  nested : c.inProgress.Pairwise fun inner outer => outer.2 < inner.2
  loops : ∀ {height k}, StandsAt ks height k → base ≤ height → k.ofTested = true →
    ∃ s, (s, height) ∈ c.inProgress ∧ s.hasTest = true
  begun : c.inProgress ≠ [] → ∃ s, c.latest = some s

/-- The statement that began last is a given one, unless this is a loop at its test. -/
def Shows (ks : List Cont) (c : Call) (s : Stmt) (height : Nat) : Prop :=
  ∃ latest, c.latest = some latest ∧
    (latest = s ∨ s.hasTest = true ∧ ∃ k, StandsAt ks height k ∧ k.isTest = true)

/-- A statement of a call is at an expression, and all that awaits values stands above it. -/
structure Engaged (base : Nat) (ks : List Cont) (c : Call) (s : Stmt) (start : Nat) : Prop
    extends Keeps base ks c where
  innermost : ∃ outer, c.inProgress = (s, start) :: outer
  low : start ≤ ks.length
  shows : c.Shows ks s start
  above : ∀ {height k}, StandsAt ks height k → base ≤ height → start ≤ height →
    k.isPart = true ∨ k.isOwn = true ∧ height = start
  below : ∀ {height k}, StandsAt ks height k → base ≤ height → height < start → k.awaits = false

/-- No statement of a call is at an expression. -/
structure Resting (base : Nat) (ks : List Cont) (c : Call) : Prop extends Keeps base ks c where
  idle : ∀ {height k}, StandsAt ks height k → base ≤ height → k.awaits = false

/-- How the innermost call stands when something is to be done next. -/
def AtWork (base : Nat) (ks : List Cont) (c : Call) : Control → Prop
  | .eval _ => ∃ s start, c.Engaged base ks s start
  | .deliver _ => (∃ s start, c.Engaged base ks s start) ∨ c.Resting base ks
  | .exec _ | .proceed | .unwind _ => c.Resting base ks

section Settling

variable {m : Machine} {base : Nat} {ks rest : List Cont} {c : Call} {s : Stmt} {start : Nat}

variable {p : Stmt × Nat}

theorem mem_settle (mem : p ∈ c.inProgress) (within : m.isWithin p.2 = true) : p ∈ (c.settle m).inProgress := by
  rw [← List.takeWhile_append_dropWhile (p := fun s : Stmt × Nat => !m.isWithin s.2) (l := c.inProgress)] at mem
  rcases List.mem_append.mp mem with gone | left
  · have out := List.all_eq_true.mp List.all_takeWhile p gone
    simp [within] at out
  · exact left

/-- What began on the stack as it is, or higher, is done, unless it is an expression. -/
theorem lt_of_mem_settle (nested : c.inProgress.Pairwise fun inner outer => outer.2 < inner.2)
    (still : m.control.isEval = false) (mem : p ∈ (c.settle m).inProgress) : p.2 < m.conts.length := by
  have kept := nested.sublist (List.dropWhile_sublist fun s : Stmt × Nat => !m.isWithin s.2)
  have head := List.head?_dropWhile_not (fun s : Stmt × Nat => !m.isWithin s.2) c.inProgress
  rw [settle] at mem
  generalize c.inProgress.dropWhile _ = left at kept head mem
  cases left with
  | nil => cases mem
  | cons first others =>
    have within : first.2 < m.conts.length := by
      simpa [Machine.isWithin, still] using head
    rcases List.mem_cons.mp mem with rfl | mem
    · exact within
    · exact Nat.lt_trans (List.rel_of_pairwise_cons kept mem) within

/-- A statement is the innermost one if none began higher. -/
theorem innermost_of_mem (nested : c.inProgress.Pairwise fun inner outer => outer.2 < inner.2)
    (mem : (s, start) ∈ c.inProgress) (low : ∀ p ∈ c.inProgress, p.2 ≤ start) :
    ∃ outer, c.inProgress = (s, start) :: outer := by
  generalize c.inProgress = left at nested mem low
  cases left with
  | nil => cases mem
  | cons first outer =>
    rcases List.mem_cons.mp mem with rfl | inside
    · exact ⟨outer, rfl⟩
    · have high := List.rel_of_pairwise_cons nested inside
      exact absurd (low first List.mem_cons_self) (Nat.not_le_of_lt high)

theorem Keeps.settle (keeps : c.Keeps base m.conts) : (c.settle m).Keeps base m.conts where
  nested := keeps.nested.sublist (List.dropWhile_sublist _)
  loops stands own tested := by
    obtain ⟨s, mem, hasTest⟩ := keeps.loops stands own tested
    exact ⟨s, mem_settle mem (by simp [Machine.isWithin, stands.lt]), hasTest⟩
  begun some := by
    apply keeps.begun
    intro none
    simp [Call.settle, none] at some

theorem Resting.settle (resting : c.Resting base m.conts) : (c.settle m).Resting base m.conts :=
  ⟨resting.toKeeps.settle, resting.idle⟩

/-- A statement that is at an expression is in progress. -/
theorem settle_eq (innermost : ∃ outer, c.inProgress = (s, start) :: outer) (within : m.isWithin start = true) :
    c.settle m = c := by
  obtain ⟨outer, innermost⟩ := innermost
  have same : c.inProgress.dropWhile (fun s => !m.isWithin s.2) = c.inProgress := by
    rw [innermost, List.dropWhile_cons_of_neg (by simp [within])]
  rw [settle, same]

end Settling

/-! ### Steps of a call -/

section Steps

variable {m : Machine} {base : Nat} {used new rest : List Cont} {c : Call} {s : Stmt} {start : Nat} {k : Cont}
  {v : Value} {control control' : Control} {tested : Bool}

theorem begin_exec (control : m.control = .exec s) :
    c.begin m = { c with latest := some s, inProgress := (s, m.conts.length) :: c.inProgress } := by
  rw [begin, control]

theorem begin_other (other : ∀ s, m.control ≠ .exec s) : c.begin m = c := by
  rw [begin]
  split
  case h_1 s control => exact absurd control (other s)
  case h_2 => rfl

theorem begin_done (done : m.control.isDone = true) : c.begin m = c := by
  apply begin_other
  intro s exec
  rw [exec] at done
  cases done

theorem AtWork.resting (work : c.AtWork base rest control) (done : control.isDone = true) : c.Resting base rest := by
  cases control with
  | proceed | unwind => exact work
  | eval | exec | deliver => cases done

/-- Other continuations are put on a stack. -/
theorem Keeps.replace (keeps : c.Keeps base (used ++ rest))
    (fresh : ∀ {height k}, StandsAt (new ++ rest) height k → k.ofTested = true →
      StandsAt rest height k ∨ ∃ s, (s, height) ∈ c.inProgress ∧ s.hasTest = true) :
    c.Keeps base (new ++ rest) where
  nested := keeps.nested
  loops stands own tested := by
    rcases fresh stands tested with below | known
    · exact keeps.loops (below.append used) own tested
    · exact known
  begun := keeps.begun

theorem Resting.replace (resting : c.Resting base (used ++ rest))
    (fresh : ∀ {height k}, StandsAt (new ++ rest) height k → k.ofTested = true →
      StandsAt rest height k ∨ ∃ s, (s, height) ∈ c.inProgress ∧ s.hasTest = true)
    (still : ∀ k ∈ new, k.awaits = false) : c.Resting base (new ++ rest) where
  toKeeps := resting.toKeeps.replace fresh
  idle stands own := by
    rcases stands.split with below | ⟨-, mem⟩
    · exact resting.idle (below.append used) own
    · exact still _ mem

theorem Keeps.popped (keeps : c.Keeps base (used ++ rest)) : c.Keeps base rest := by
  have left : c.Keeps base ([] ++ rest) := keeps.replace fun stands _ => .inl stands
  exact left

/-- Where a value is awaited, a statement is at an expression. -/
theorem AtWork.engaged (work : c.AtWork base m.conts m.control) (is : m.control = .deliver v)
    (conts : m.conts = k :: rest) (own : base ≤ rest.length) (awaited : k.awaits = true) :
    (c.settle m).begin m = c ∧ ∃ s start, c.Engaged base (k :: rest) s start ∧ start ≤ rest.length ∧
      (k.isOwn = true → start = rest.length) := by
  have top := StandsAt.top k rest
  rw [is, conts] at work
  rcases work with ⟨s, start, engaged⟩ | resting
  · have low : start ≤ rest.length := by
      apply Nat.le_of_not_lt
      intro high
      rw [engaged.below top own high] at awaited
      cases awaited
    have within : m.isWithin start = true := by
      simp [Machine.isWithin, conts]
      omega
    rw [settle_eq engaged.innermost within, begin_other (by simp [is])]
    refine ⟨rfl, s, start, engaged, low, fun isOwn => ?_⟩
    rcases engaged.above top own low with part | ⟨-, same⟩
    · rw [Cont.isPart_of_isOwn isOwn] at part
      cases part
    · exact same.symm
  · rw [resting.idle top own] at awaited
    cases awaited

/-- An expression goes on. -/
theorem Engaged.values (engaged : c.Engaged base (used ++ rest) s start) (uses : ∀ k ∈ used, k.isPart = true)
    (low : start ≤ rest.length) (parts : ∀ k ∈ new, k.isPart = true) : c.Engaged base (new ++ rest) s start where
  toKeeps := by
    apply engaged.toKeeps.replace
    intro height k stands tested
    rcases stands.split with below | ⟨-, mem⟩
    · exact .inl below
    · rw [Cont.ofTested_of_isPart (parts k mem)] at tested
      cases tested
  innermost := engaged.innermost
  low := by
    rw [List.length_append]
    omega
  shows := by
    obtain ⟨latest, began, same | ⟨hasTest, k, stands, test⟩⟩ := engaged.shows
    · exact ⟨latest, began, .inl same⟩
    · rcases stands.split with below | ⟨-, mem⟩
      · exact ⟨latest, began, .inr ⟨hasTest, k, below.append new, test⟩⟩
      · rw [Cont.isTest_of_isPart (uses k mem)] at test
        cases test
  above stands own high := by
    rcases stands.split with below | ⟨-, mem⟩
    · exact engaged.above (below.append used) own high
    · exact .inl (parts _ mem)
  below stands own under := by
    rcases stands.split with below | ⟨high, -⟩
    · exact engaged.below (below.append used) own under
    · omega

/-- A value that is used in an expression leaves the innermost statement at it. -/
theorem AtWork.uses (work : c.AtWork base m.conts m.control) (is : m.control = control)
    (conts : m.conts = used ++ rest) (own : base ≤ rest.length) (uses : control.Uses used) :
    (c.settle m).begin m = c ∧ (∀ k ∈ used, k.isPart = true) ∧
      ∃ s start, c.Engaged base (used ++ rest) s start ∧ start ≤ rest.length := by
  cases uses with
  | eval e =>
    rw [conts, is] at work
    obtain ⟨s, start, engaged⟩ := work
    have within : m.isWithin start = true := by
      rw [Machine.isWithin, conts, is]
      simpa [Control.isEval] using Nat.lt_or_eq_of_le engaged.low
    rw [settle_eq engaged.innermost within, begin_other (by simp [is])]
    exact ⟨rfl, List.forall_mem_nil _, s, start, engaged, engaged.low⟩
  | @deliver v k part =>
    obtain ⟨same, s, start, engaged, low, -⟩ := work.engaged is conts own (Cont.awaits_of_isPart part)
    exact ⟨same, List.forall_mem_singleton.mpr part, s, start, engaged, low⟩

/-- When a statement begins, has its value or is done, nothing below awaits a value. -/
theorem AtWork.leaves (work : c.AtWork base m.conts m.control) (is : m.control = control)
    (conts : m.conts = used ++ rest) (own : base ≤ rest.length) (leaves : control.Leaves used tested) :
    ((c.settle m).begin m).Resting base rest ∧
      (tested = true → ∃ s, (s, rest.length) ∈ ((c.settle m).begin m).inProgress ∧ s.hasTest = true) := by
  cases leaves with
  | exec s =>
    have resting : c.Resting base m.conts := by
      rw [is] at work
      exact work
    have settled := resting.settle
    rw [begin_exec is, ← List.nil_append rest, ← conts]
    refine ⟨⟨⟨?_, ?_, fun _ => ⟨s, rfl⟩⟩, settled.idle⟩, fun hasTest => ⟨s, List.mem_cons_self, hasTest⟩⟩
    · refine List.pairwise_cons.mpr ⟨fun p mem => ?_, settled.nested⟩
      exact lt_of_mem_settle resting.nested (by rw [is]; rfl) mem
    · intro height k stands own tested
      obtain ⟨s, mem, hasTest⟩ := settled.loops stands own tested
      exact ⟨s, List.mem_cons_of_mem _ mem, hasTest⟩
  | @deliver v k isOwn =>
    obtain ⟨same, s, start, engaged, -, lowest⟩ := work.engaged is conts own (Cont.awaits_of_isOwn isOwn)
    obtain rfl := lowest isOwn
    rw [same]
    have keeps : c.Keeps base ([k] ++ rest) := engaged.toKeeps
    refine ⟨⟨keeps.popped, fun stands own => ?_⟩, keeps.loops (.top k rest) own⟩
    exact engaged.below (.under k stands) own stands.lt
  | @done _ done k other =>
    rw [← is] at done
    have settled := (work.resting done).settle
    rw [conts] at settled
    rw [begin_done done]
    exact ⟨⟨settled.toKeeps.popped, fun stands => settled.idle (.under k stands)⟩, settled.loops (.top k rest) own⟩

/-- A statement about to evaluate an expression is the innermost one. -/
theorem AtWork.opens (work : c.AtWork base m.conts m.control) (is : m.control = control)
    (conts : m.conts = used ++ rest) (own : base ≤ rest.length) (opens : control.Opens used tested) :
    ∃ s outer, ((c.settle m).begin m).inProgress = (s, rest.length) :: outer ∧
      (((c.settle m).begin m).latest = some s ∨ tested = true ∧ s.hasTest = true) := by
  cases opens with
  | exec s =>
    rw [begin_exec is, conts]
    exact ⟨s, _, rfl, .inl rfl⟩
  | @deliver v k isOwn other =>
    obtain ⟨same, s, start, engaged, -, lowest⟩ := work.engaged is conts own (Cont.awaits_of_isOwn isOwn)
    obtain rfl := lowest isOwn
    rw [same]
    obtain ⟨outer, innermost⟩ := engaged.innermost
    refine ⟨s, outer, innermost, .inl ?_⟩
    obtain ⟨latest, began, rfl | ⟨-, k', stands, test⟩⟩ := engaged.shows
    · exact began
    · rw [stands.eq_of_top, other] at test
      cases test
  | @done _ done k ofTested =>
    obtain ⟨resting, known⟩ := work.leaves is conts own (Control.Opens.done done ofTested).leaves
    obtain ⟨s, mem, hasTest⟩ := known rfl
    rw [← is] at done
    have nested := resting.nested
    rw [begin_done done] at mem nested ⊢
    -- The loop began where its continuation stands, and all that began higher is done.
    obtain ⟨outer, innermost⟩ := innermost_of_mem nested mem fun p mem => by
      have low := lt_of_mem_settle (work.resting done).nested (Control.isEval_of_isDone done) mem
      rw [conts] at low
      exact Nat.le_of_lt_succ low
    exact ⟨s, outer, innermost, .inr ⟨rfl, hasTest⟩⟩

/-- The innermost statement evaluates an expression that stands in it. -/
theorem Resting.evaluates (resting : c.Resting base rest)
    (known : tested = true → ∃ s, (s, rest.length) ∈ c.inProgress ∧ s.hasTest = true)
    (innermost : ∃ outer, c.inProgress = (s, rest.length) :: outer)
    (latest : c.latest = some s ∨ tested = true ∧ s.hasTest = true) (isOwn : k.isOwn = true)
    (test : k.isTest = tested) : c.Engaged base (k :: rest) s rest.length where
  toKeeps := by
    have keeps : c.Keeps base ([] ++ rest) := resting.toKeeps
    have onTop : c.Keeps base ([k] ++ rest) := by
      apply keeps.replace
      intro height k' stands ofTested
      rcases stands.of_cons with below | ⟨rfl, rfl⟩
      · exact .inl below
      · rw [Cont.ofTested_of_isOwn isOwn, test] at ofTested
        exact .inr (known ofTested)
    exact onTop
  innermost := innermost
  low := Nat.le_succ _
  shows := by
    rcases latest with latest | ⟨rfl, hasTest⟩
    · exact ⟨s, latest, .inl rfl⟩
    · obtain ⟨outer, innermost⟩ := innermost
      obtain ⟨began, latest⟩ := resting.begun (by simp [innermost])
      exact ⟨began, latest, .inr ⟨hasTest, k, .top k rest, test⟩⟩
  above stands _ high := by
    rcases stands.of_cons with below | ⟨same, rfl⟩
    · exact absurd below.lt (Nat.not_lt_of_le high)
    · exact .inr ⟨isOwn, same⟩
  below stands own low := by
    rcases stands.of_cons with below | ⟨same, -⟩
    · exact resting.idle below own
    · omega

/-- A statement leaves something to do before it is done. -/
theorem Resting.lays (resting : c.Resting base rest)
    (known : tested = true → ∃ s, (s, rest.length) ∈ c.inProgress ∧ s.hasTest = true) (lays : Lays tested new) :
    c.Resting base (new ++ rest) := by
  have before : c.Resting base ([] ++ rest) := resting
  apply before.replace
  · intro height k stands ofTested
    rcases lays.height stands ofTested with below | ⟨rfl, isTested⟩
    · exact .inl below
    · exact .inr (known isTested)
  · exact fun k mem => (lays.inner k mem).2

/-- A step within a call. -/
theorem AtWork.works (work : c.AtWork base m.conts m.control) (is : m.control = control)
    (conts : m.conts = used ++ rest) (own : base ≤ rest.length) (works : Works control used control' new) :
    ((c.settle m).begin m).AtWork base (new ++ rest) control' := by
  cases works with
  | values uses parts value =>
    obtain ⟨same, used, s, start, engaged, low⟩ := work.uses is conts own uses
    have goesOn : ∃ s start, c.Engaged base (new ++ rest) s start := ⟨s, start, engaged.values used low parts⟩
    rw [same]
    cases control' with
    | eval => exact goesOn
    | deliver => exact .inl goesOn
    | exec | proceed | unwind => cases value
  | begins e =>
    obtain ⟨resting, -⟩ := work.leaves is conts own (.exec _)
    rw [begin_exec is, conts] at resting ⊢
    refine ⟨_, rest.length, resting.toKeeps, ⟨_, rfl⟩, Nat.le_refl _, ⟨_, rfl, .inl rfl⟩, ?_, ?_⟩
    · intro height k stands _ high
      exact absurd stands.lt (Nat.not_lt_of_le high)
    · exact fun stands own _ => resting.idle stands own
  | @evaluates _ _ tested opens e k isOwn test =>
    obtain ⟨resting, known⟩ := work.leaves is conts own opens.leaves
    obtain ⟨s, outer, innermost, latest⟩ := work.opens is conts own opens
    exact ⟨s, rest.length, resting.evaluates known ⟨outer, innermost⟩ latest isOwn test⟩
  | moves leaves still lays =>
    obtain ⟨resting, known⟩ := work.leaves is conts own leaves
    have laid := resting.lays known lays
    cases control' with
    | exec | proceed | unwind => exact laid
    | eval | deliver => cases still

theorem AtWork.deliver (work : c.AtWork base rest control) (v : Value) : c.AtWork base rest (.deliver v) := by
  cases control with
  | eval => exact .inl work
  | deliver => exact work
  | exec | proceed | unwind => exact .inr work

/-- A value that is not awaited is that of a statement which is done. -/
theorem AtWork.drops (work : c.AtWork base (k :: rest) (.deliver v)) (other : k.awaits = false) :
    c.Resting base (k :: rest) := by
  rcases work with ⟨s, start, engaged⟩ | resting
  · refine ⟨engaged.toKeeps, fun {height k'} stands own => ?_⟩
    apply engaged.below stands own
    apply Nat.lt_of_not_le
    intro high
    have low : height ≤ rest.length := Nat.le_of_lt_succ stands.lt
    rcases engaged.above (.top k rest) (Nat.le_trans own low) (Nat.le_trans high low) with part | ⟨isOwn, -⟩
    · rw [Cont.awaits_of_isPart part] at other
      cases other
    · rw [Cont.awaits_of_isOwn isOwn] at other
      cases other
  · exact resting

/-- A call that begins. -/
theorem resting_start (f : FnDef) (rest : List Cont) :
    (Call.start f).Resting (rest.length + 1) ([.block f.body] ++ .callEnd :: rest) := by
  have body {height : Nat} {k : Cont} (stands : StandsAt ([.block f.body] ++ .callEnd :: rest) height k)
      (own : rest.length + 1 ≤ height) : k = .block f.body := by
    rcases stands.split with below | ⟨-, mem⟩
    · exact absurd below.lt (Nat.not_lt_of_le own)
    · exact List.mem_singleton.mp mem
  refine ⟨⟨.nil, fun stands own tested => ?_, fun some => absurd rfl some⟩, fun stands own => ?_⟩
  · rw [body stands own] at tested
    cases tested
  · rw [body stands own]
    rfl

end Steps

end Call

/-! ### All calls -/

/-- Calls in which others were made, each with a statement at the expression with the call. -/
inductive Waiting : List Cont → List Call → Prop where
  | outside {ks : List Cont} (none : ∀ k ∈ ks, k.isCallEnd = false) : Waiting ks []
  | inside {own rest : List Cont} {c : Call} {calls : List Call} {s : Stmt} {start : Nat}
      (inner : ∀ k ∈ own, k.isBorder = false)
      (engaged : c.Engaged (rest.length + 1) (own ++ .callEnd :: rest) s start) (callers : Waiting rest calls) :
      Waiting (own ++ .callEnd :: rest) (c :: calls)

/-- The active calls on their stack. -/
inductive Standing (control : Control) : List Cont → List Call → Prop where
  | outside {ks : List Cont} (none : ∀ k ∈ ks, k.isCallEnd = false) : Standing control ks []
  | inside {own rest : List Cont} {c : Call} {calls : List Call} (inner : ∀ k ∈ own, k.isBorder = false)
      (work : c.AtWork (rest.length + 1) (own ++ .callEnd :: rest) control) (callers : Waiting rest calls) :
      Standing control (own ++ .callEnd :: rest) (c :: calls)

variable {ks : List Cont} {calls : List Call} {c : Call} {m : Machine}

theorem Waiting.standing (waiting : Waiting ks calls) (v : Value) : Standing (.deliver v) ks calls := by
  cases waiting with
  | outside none => exact .outside none
  | inside inner engaged callers => exact .inside inner (.inl ⟨_, _, engaged⟩) callers

theorem Turn.track_of_stays {t : Turn} (stays : t.stays = true) (calls : List Call) : t.track calls = calls := by
  cases t with
  | calls | returns => cases stays
  | moves | assigns | uses => rfl

namespace Standing

variable {m : Machine} {control control' : Control} {ks used new rest : List Cont} {calls : List Call} {t : Turn}

theorem deliver (standing : Standing control ks calls) (v : Value) : Standing (.deliver v) ks calls := by
  cases standing with
  | outside none => exact .outside none
  | inside inner work callers => exact .inside inner (work.deliver v) callers

/-- A step within the innermost call, or outside of all calls. -/
theorem works (standing : Standing m.control m.conts calls) (is : m.control = control)
    (conts : m.conts = used ++ rest) (works : Works control used control' new) :
    Standing control' (new ++ rest) (m.during calls) := by
  generalize whole : m.conts = ks at standing
  cases standing with
  | outside none =>
    refine .outside fun k mem => ?_
    rcases List.mem_append.mp mem with fresh | old
    · exact Cont.isCallEnd_of_inner (works.inner.2 k fresh)
    · exact none k (whole.symm.trans conts ▸ List.mem_append_right used old)
  | @inside own below c calls inner work callers =>
    obtain ⟨left, rfl, rfl⟩ := Machine.split_of_own works.inner.1 (conts.symm.trans whole)
    rw [← whole] at work
    have worked := work.works is conts (by simp) works
    rw [← List.append_assoc] at worked ⊢
    refine .inside (fun k mem => ?_) worked callers
    rcases List.mem_append.mp mem with fresh | old
    · exact works.inner.2 k fresh
    · exact inner k (List.mem_append_right used old)

/-- The innermost call stays as it is, and no statement in it is at an expression. -/
theorem rests (standing : Standing m.control m.conts calls) (other : ∀ s, m.control ≠ .exec s)
    (resting : ∀ {base : Nat} {c : Call}, c.AtWork base m.conts m.control → c.Resting base m.conts)
    (goes : ∀ {base : Nat} {c : Call}, c.Resting base m.conts → c.AtWork base m.conts control') :
    Standing control' m.conts (m.during calls) := by
  generalize whole : m.conts = ks at standing
  cases standing with
  | outside none => exact .outside none
  | @inside own below c calls inner work callers =>
    rw [← whole] at work
    have settled := goes (resting work).settle
    rw [whole] at settled
    have same : (c.settle m).begin m = c.settle m := Call.begin_other other
    have worked : ((c.settle m).begin m).AtWork (below.length + 1) (own ++ .callEnd :: below) control' := by
      rw [same]
      exact settled
    exact .inside inner worked callers

theorem of_start (f : FnDef) (waiting : Waiting rest calls) :
    Standing .proceed (.block f.body :: .callEnd :: rest) (.start f :: calls) := by
  have inner : ∀ k ∈ [Cont.block f.body], k.isBorder = false := List.forall_mem_singleton.mpr rfl
  exact .inside inner (Call.resting_start f rest) waiting

/-- A call is made where a value is awaited. -/
theorem begins (standing : Standing m.control m.conts calls) (is : m.control = control)
    (conts : m.conts = used ++ rest) (uses : control.Uses used) (f : FnDef) :
    Standing .proceed (.block f.body :: .callEnd :: rest) (.start f :: m.during calls) := by
  apply of_start f
  generalize whole : m.conts = ks at standing
  cases standing with
  | outside none =>
    exact .outside fun k mem => none k (whole.symm.trans conts ▸ List.mem_append_right used mem)
  | @inside own below c calls inner work callers =>
    obtain ⟨left, rfl, rfl⟩ := Machine.split_of_own uses.ventures.own (conts.symm.trans whole)
    rw [← whole] at work
    obtain ⟨same, parts, s, start, engaged, low⟩ := work.uses is conts (by simp) uses
    have waits : c.Engaged (below.length + 1) ([] ++ (left ++ .callEnd :: below)) s start :=
      engaged.values parts low (List.forall_mem_nil _)
    rw [Machine.during, List.modifyHead_cons, same]
    exact .inside (fun k mem => inner k (List.mem_append_right used mem)) waits callers

/-- The calls that are active after a step stand on the stack after it. -/
theorem passes (standing : Standing m.control m.conts calls) (conts : m.conts = used ++ rest)
    (passes : Passes m.control used t control' new) : Standing control' (new ++ rest) (t.track (m.during calls)) := by
  generalize is : m.control = control at passes
  cases passes with
  | works stays works =>
    rw [Turn.track_of_stays stays]
    exact standing.works is conts works
  | @drops v k other =>
    rw [Turn.track, ← conts]
    apply standing.rests (by simp [is])
    · intro base c work
      rw [is, conts] at work
      rw [conts]
      exact work.drops other
    · exact fun resting => resting
  | counts =>
    rw [Turn.track, ← conts]
    exact standing.rests (by simp [is]) (fun work => work.resting (by rw [is]; rfl)) .inr
  | outside =>
    rw [Turn.track, ← conts]
    exact standing.rests (by simp [is]) (fun work => work.resting (by rw [is]; rfl)) fun resting => resting
  | calls uses => exact standing.begins is conts uses _
  | @enters name f =>
    rw [conts] at standing
    generalize whole : [Cont.entry name] ++ rest = ks at standing
    cases standing with
    | outside none =>
      apply of_start f
      exact .outside fun k mem => none k (whole ▸ List.mem_cons_of_mem _ mem)
    | @inside own below c calls inner =>
      cases own with
      | nil => cases whole
      | cons k own =>
        cases whole
        cases inner _ List.mem_cons_self
  | returns done v =>
    rw [conts] at standing
    generalize whole : [Cont.callEnd] ++ rest = ks at standing
    cases standing with
    | outside none => cases none .callEnd (whole ▸ List.mem_cons_self)
    | @inside own below c calls inner work callers =>
      cases own with
      | nil =>
        cases whole
        exact callers.standing v
      | cons k own =>
        cases whole
        cases inner _ List.mem_cons_self

end Standing

/-! ### Places of failures -/

/-- The innermost statement in progress began last, unless it is a loop at its test. -/
def Call.Located (ks : List Cont) (c : Call) : Prop :=
  ∃ s start outer, c.inProgress = (s, start) :: outer ∧ c.Shows ks s start

theorem Call.Located.append (located : c.Located ks) (above : List Cont) : c.Located (above ++ ks) := by
  obtain ⟨s, start, outer, innermost, latest, began, same | ⟨hasTest, k, stands, test⟩⟩ := located
  · exact ⟨s, start, outer, innermost, latest, began, .inl same⟩
  · exact ⟨s, start, outer, innermost, latest, began, .inr ⟨hasTest, k, stands.append above, test⟩⟩

theorem Call.Engaged.located {base start : Nat} {s : Stmt} (engaged : c.Engaged base ks s start) : c.Located ks := by
  obtain ⟨outer, innermost⟩ := engaged.innermost
  exact ⟨s, start, outer, innermost, engaged.shows⟩

theorem Waiting.located (waiting : Waiting ks calls) : ∀ c ∈ calls, c.Located ks := by
  induction waiting with
  | outside => exact List.forall_mem_nil _
  | @inside own rest c calls s start _ engaged _ ih =>
    refine List.forall_mem_cons.mpr ⟨engaged.located, fun c mem => ?_⟩
    have located := (ih c mem).append (own ++ [.callEnd])
    rwa [List.append_assoc] at located

/-- Where a step can fail, the innermost call shows its innermost statement. -/
theorem Call.AtWork.located {own below : List Cont}
    (work : c.AtWork (below.length + 1) m.conts m.control) (whole : m.conts = own ++ .callEnd :: below)
    (inner : ∀ k ∈ own, k.isBorder = false) (conts : m.conts = used ++ rest) (ventures : m.control.Ventures used) :
    ((c.settle m).begin m).Located m.conts := by
  generalize control : m.control = control at ventures
  cases ventures with
  | exec s =>
    rw [begin_exec control]
    exact ⟨s, _, _, rfl, s, rfl, .inl rfl⟩
  | eval e =>
    have used := work.uses control (List.nil_append _).symm (by simp [whole]) (.eval _)
    obtain ⟨same, -, s, start, engaged, -⟩ := used
    rw [same]
    exact engaged.located
  | @deliver v k awaited =>
    have high : below.length + 1 ≤ rest.length := by
      rw [conts] at whole
      cases own with
      | nil =>
        cases whole
        cases awaited
      | cons k own =>
        cases whole
        simp
    obtain ⟨same, s, start, engaged, -⟩ := work.engaged control conts high awaited
    rw [same, conts]
    exact engaged.located
  | entry name =>
    rw [conts] at whole
    cases own with
    | nil => cases whole
    | cons k own =>
      cases whole
      cases inner _ List.mem_cons_self

/-- Where a step can fail, every active call shows its innermost statement. -/
theorem Standing.located (standing : Standing m.control m.conts calls) (conts : m.conts = used ++ rest)
    (ventures : m.control.Ventures used) : ∀ c ∈ m.during calls, c.Located m.conts := by
  generalize whole : m.conts = ks at standing
  cases standing with
  | outside => exact List.forall_mem_nil _
  | @inside own below c calls inner work callers =>
    rw [← whole] at work
    rw [Machine.during, List.modifyHead_cons, List.forall_mem_cons]
    refine ⟨whole ▸ work.located whole inner conts ventures, fun c mem => ?_⟩
    have located := (callers.located c mem).append (own ++ [.callEnd])
    rwa [List.append_assoc] at located

end Sketch
