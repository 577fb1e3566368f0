import Sketch.Proofs.Machine.Steps

/-!
How calls end. A return drops what is left of its call and nothing else, and the next thing is its value. The one
exception is a loop at its first clause: it keeps a return to itself and begins.
-/

namespace Sketch

/-- Whether a continuation is the head of a loop behind its first or its last clause. -/
def Cont.keepsReturn : Cont → Bool
  | .clausesStart _ => true
  | _ => false

namespace Machine

variable {script : Script} {m₀ m m' : Machine} {v : Value}

/-- The call that is made in `m₀` is active: since it was begun, no step came back from it. -/
inductive Active (script : Script) (m₀ : Machine) : Machine → Prop
  | begun {m : Machine} {f : FnDef} {args : List Value} {line : Nat}
      (called : callUser script m₀ f args line = .next m) : Active script m₀ m
  | next {m m' : Machine} (active : Active script m₀ m) (stepped : m.step script = .next m')
      (deeper : m₀.frames.length < m'.frames.length) : Active script m₀ m'
  | resumed {m m' : Machine} {p : Pause} (active : Active script m₀ m) (paused : m.step script = .paused p m')
      (deeper : m₀.frames.length < m'.frames.length) (v : Value) (world : World) (sent : Array HostEvent) :
      Active script m₀ { m'.resume v with world, sent }

/-- A return gives its value, as soon as that of its expression is there. -/
inductive Returns (m : Machine) : Value → Prop
  | bare {pos : Pos} (control : m.control = .exec (.ret none pos)) : Returns m .nil
  | valued {v : Value} {ks : List Cont} (control : m.control = .deliver v) (conts : m.conts = .giveBack :: ks) :
      Returns m v

/-! ### The stack of a call -/

/-- The stack of a call that was made in `m₀`, with the calls that it made. -/
structure Above (m₀ : Machine) (inner : List Cont) (m : Machine) : Prop where
  conts : m.conts = inner ++ .callEnd :: m₀.conts
  inside : ∀ name, .entry name ∉ inner
  frames : ∃ f frames, m.frames = f :: (frames ++ m₀.frames) ∧ frames.length = inner.countP Cont.isCallEnd

variable {used rest inner : List Cont} {k : Cont}

/-- Continuations that end no call are above the end of a call. -/
theorem split_of_own {outer : List Cont} (own : ∀ k ∈ used, k.isCallEnd = false)
    (whole : used ++ rest = inner ++ .callEnd :: outer) :
    ∃ left, inner = used ++ left ∧ rest = left ++ .callEnd :: outer := by
  rcases List.append_eq_append_iff.mp whole with ⟨left, inner, rest⟩ | ⟨more, used, rest⟩
  · exact ⟨left, inner, rest⟩
  · cases more with
    | nil => exact ⟨[], by simpa using used.symm, by simpa using rest.symm⟩
    | cons k more =>
      cases rest
      have ends := own .callEnd (by simp [used])
      cases ends

theorem countP_of_own {left : List Cont} (own : ∀ k ∈ used, k.isCallEnd = false) :
    (used ++ left).countP Cont.isCallEnd = left.countP Cont.isCallEnd := by
  have none : used.countP Cont.isCallEnd = 0 := List.countP_eq_zero.mpr (by simpa using own)
  rw [List.countP_append, none, Nat.zero_add]

namespace Above

variable {inner : List Cont}

/-- A step within the innermost call leaves what is below. -/
theorem of_within (above : Above m₀ inner m) (stays : Within m m') : ∃ inner', Above m₀ inner' m' := by
  obtain ⟨f, frames, onTop, count⟩ := above.frames
  cases stays with
  | @of used more rest was becomes own fresh depth below =>
    -- What is used ends no call, so it lies above the end of this one.
    obtain ⟨left, rfl, rfl⟩ := split_of_own own (was.symm.trans above.conts)
    rw [onTop] at depth below
    obtain ⟨f', tail, onTop'⟩ := List.exists_cons_of_length_eq_add_one depth
    rw [countP_of_own own] at count
    refine ⟨more ++ left, by rw [becomes, List.append_assoc], ?_, f', frames, ?_, ?_⟩
    · intro name mem
      rcases List.mem_append.mp mem with new | old
      · cases fresh _ new
      · exact above.inside name (List.mem_append_right used old)
    · rw [onTop'] at below ⊢
      exact congrArg (f' :: ·) below
    · rw [countP_of_own fun k mem => Cont.isCallEnd_of_inner (fresh k mem)]
      exact count

theorem of_calls (above : Above m₀ inner m) (begins : Calls m m') : ∃ inner', Above m₀ inner' m' := by
  obtain ⟨f, frames, onTop, count⟩ := above.frames
  cases begins with
  | @of used rest body frame was becomes own frames' =>
    obtain ⟨left, rfl, rfl⟩ := split_of_own own (was.symm.trans above.conts)
    rw [countP_of_own own] at count
    refine ⟨.block body :: .callEnd :: left, becomes, ?_, frame, f :: frames, by rw [frames', onTop]; rfl, ?_⟩
    · intro name mem
      have old : Cont.entry name ∈ left := by simpa using mem
      exact above.inside name (List.mem_append_right used old)
    · simp [Cont.isCallEnd, List.countP_cons, count]

/-- A call that ends leaves those that it was made in. -/
theorem of_ends (above : Above m₀ inner m) (ended : Ends m m') :
    m'.conts = m₀.conts ∧ m'.frames = m₀.frames ∨ ∃ inner', Above m₀ inner' m' := by
  obtain ⟨f, frames, onTop, count⟩ := above.frames
  have conts := ended.conts.symm.trans above.conts
  cases inner with
  | nil =>
    left
    have none : frames = [] := List.length_eq_zero_iff.mp count
    refine ⟨(List.cons.inj conts).2, ?_⟩
    rw [ended.frames, onTop, none]
    rfl
  | cons k left =>
    right
    obtain ⟨rfl, rest⟩ := List.cons.inj conts
    have more : frames.length = left.countP Cont.isCallEnd + 1 := by
      simpa [Cont.isCallEnd, List.countP_cons] using count
    obtain ⟨g, frames, rfl⟩ := List.exists_cons_of_length_eq_add_one more
    refine ⟨left, rest, ?_, g, frames, by rw [ended.frames, onTop]; rfl, Nat.succ.inj more⟩
    intro name mem
    exact above.inside name (List.mem_cons_of_mem _ mem)

end Above

/-- As long as a call does not come back, a step keeps its stack on top. -/
theorem Above.of_shifts (above : Above m₀ inner m) (shifts : Shifts m m')
    (deeper : m₀.frames.length < m'.frames.length) : ∃ inner', Above m₀ inner' m' := by
  cases shifts with
  | within stays => exact above.of_within stays
  | calls begins => exact above.of_calls begins
  | ends ended =>
    rcases above.of_ends ended with ⟨-, frames⟩ | goesOn
    · rw [frames] at deeper
      exact absurd deeper (Nat.lt_irrefl _)
    · exact goesOn

/-- While a call is active, all that is on the stack of its caller lies below. -/
theorem Active.above (active : Active script m₀ m) : ∃ inner, Above m₀ inner m := by
  induction active with
  | @begun m f args line called =>
    rw [callUser] at called
    split at called
    case isTrue => cases called
    case isFalse =>
      cases called
      exact ⟨[.block f.body], rfl, by simp, _, [], rfl, rfl⟩
  | @next m m' _ stepped deeper ih =>
    obtain ⟨inner, above⟩ := ih
    have shifts := step_goes script m
    rw [stepped] at shifts
    exact above.of_shifts shifts deeper
  | @resumed m m' p _ paused deeper v world sent ih =>
    obtain ⟨inner, above⟩ := ih
    have shifts := step_goes script m
    rw [paused] at shifts
    obtain ⟨inner', above'⟩ := above.of_shifts shifts deeper
    exact ⟨inner', above'.conts, above'.inside, above'.frames⟩

/-- At the level of a call there is no other one above it. -/
theorem Above.own (above : Above m₀ inner m)
    (level : m.frames.length = m₀.frames.length + 1) : ∀ k ∈ inner, k.isBorder = false := by
  obtain ⟨f, frames, onTop, count⟩ := above.frames
  have none : inner.countP Cont.isCallEnd = 0 := by
    rw [onTop, List.length_cons, List.length_append] at level
    omega
  intro k mem
  cases k with
  | callEnd => exact absurd rfl (List.countP_eq_zero.mp none _ mem)
  | entry name => exact absurd mem (above.inside name)
  | _ => rfl

/-- Below the level of a call is what it was made in. -/
theorem Above.below (above : Above m₀ inner m)
    (level : m.frames.length = m₀.frames.length + 1) : m.frames.tail = m₀.frames := by
  obtain ⟨f, frames, onTop, -⟩ := above.frames
  have none : frames = [] := by
    rw [onTop, List.length_cons, List.length_append] at level
    exact List.length_eq_zero_iff.mp (by omega)
  rw [onTop, none]
  rfl

/-! ### Returns -/

theorem run_one (script : Script) (m : Machine) : m.run script 1 = m.step script := by
  rw [run]
  split
  case h_1 stepped => rw [stepped, run]
  case h_2 => rfl

/-- A run goes on where it was left. -/
theorem run_add {steps : Nat} (ran : m.run script steps = .next m') (more : Nat) :
    m.run script (steps + more) = m'.run script more := by
  induction steps generalizing m with
  | zero =>
    cases ran
    rw [Nat.zero_add]
  | succ steps ih =>
    rw [Nat.succ_add, run]
    rw [run] at ran
    split at ran
    case h_1 stepped => exact ih ran
    case h_2 halts => exact absurd ran (halts m')

theorem unwindStep_of_inner (inner : k.isBorder = false) (passes : k.keepsReturn = false) :
    unwindStep m v k = .next m := by
  cases k with
  | callEnd | entry => cases inner
  | clausesStart => cases passes
  | _ => rfl

/-- A return drops continuations one by one. -/
theorem run_unwind (script : Script) (inside : ∀ k ∈ inner, k.isBorder = false)
    (passes : ∀ k ∈ inner, k.keepsReturn = false) (control : m.control = .unwind v)
    (conts : m.conts = inner ++ rest) : m.run script inner.length = .next { m with conts := rest } := by
  induction inner generalizing m with
  | nil =>
    rw [List.nil_append] at conts
    rw [← conts]
    rfl
  | cons k inner ih =>
    rw [List.forall_mem_cons] at inside passes
    have stepped : m.step script = .next { m with conts := inner ++ rest } := by
      rw [step, control]
      simp only [conts, List.cons_append]
      exact unwindStep_of_inner inside.1 passes.1
    rw [List.length_cons, run, stepped]
    exact ih inside.2 passes.2 control rfl

/-- The step with which a return gives its value. -/
structure BeginsUnwinding (m : Machine) (v : Value) (m₁ : Machine) : Prop where
  control : m₁.control = .unwind v
  conts : m.conts = m₁.conts ∨ m.conts = .giveBack :: m₁.conts
  below : m₁.frames.tail = m.frames.tail
  globals : m₁.globals = m.globals
  world : m₁.world = m.world
  sent : m₁.sent = m.sent

theorem Returns.step (script : Script) (returns : Returns m v) :
    ∃ m₁, m.step script = .next m₁ ∧ BeginsUnwinding m v m₁ := by
  cases returns with
  | @bare pos control =>
    have stepped : m.step script = .next ((m.moveTo pos).goto (.unwind .nil)) := by
      rw [Machine.step, control]
      rfl
    refine ⟨_, stepped, rfl, .inl (moveTo_conts m pos).symm, moveTo_tail m pos, ?_, ?_, ?_⟩
    all_goals
      rw [moveTo]
      split <;> rfl
  | @valued v ks control conts =>
    have stepped : m.step script = .next ({ m with conts := ks }.goto (.unwind v)) := by
      rw [Machine.step, control]
      simp only [conts]
      rfl
    exact ⟨_, stepped, rfl, .inr conts, rfl, rfl, rfl, rfl⟩

/-- For some steps nothing happens but that a return passes by. -/
def OnlyUnwinds (script : Script) (m : Machine) (v : Value) (steps : Nat) : Prop :=
  ∀ i < steps, ∃ m' : Machine, m.run script (i + 1) = .next m' ∧ m'.control = .unwind v

/-- A return passes by all that does not stop it. -/
theorem Returns.run (script : Script) (returns : Returns m v)
    (conts : m.conts = inner ++ k :: rest) (inside : ∀ k ∈ inner, k.isBorder = false)
    (passes : ∀ k ∈ inner, k.keepsReturn = false) (stops : k.isBorder || k.keepsReturn) :
    ∃ steps m₁, BeginsUnwinding m v m₁ ∧ OnlyUnwinds script m v steps ∧
      m.run script (steps + 1) = unwindStep { m₁ with conts := rest } v k := by
  obtain ⟨m₁, stepped, begins⟩ := returns.step script
  -- The value of a return reaches a continuation of its own, which is used before the others are dropped.
  have left : ∃ left, m₁.conts = left ++ k :: rest ∧ ∀ k ∈ left, k.isBorder = false ∧ k.keepsReturn = false := by
    rcases begins.conts with same | used
    · exact ⟨inner, same.symm.trans conts, fun k mem => ⟨inside k mem, passes k mem⟩⟩
    · rw [conts] at used
      cases inner with
      | nil =>
        rw [(List.cons.inj used).1] at stops
        cases stops
      | cons head left =>
        refine ⟨left, ((List.cons.inj used).2).symm, fun k mem => ?_⟩
        exact ⟨inside k (List.mem_cons_of_mem head mem), passes k (List.mem_cons_of_mem head mem)⟩
  obtain ⟨left, conts₁, own⟩ := left
  have unwound {i : Nat} (inside : i ≤ left.length) :
      m₁.run script i = .next { m₁ with conts := left.drop i ++ k :: rest } := by
    have taken : m₁.conts = left.take i ++ (left.drop i ++ k :: rest) := by
      rw [conts₁, ← List.append_assoc, List.take_append_drop]
    have ran := run_unwind script (fun k mem => (own k (List.mem_of_mem_take mem)).1)
      (fun k mem => (own k (List.mem_of_mem_take mem)).2) begins.control taken
    rwa [List.length_take, Nat.min_eq_left inside] at ran
  refine ⟨left.length + 1, m₁, begins, ?_, ?_⟩
  · intro i early
    refine ⟨{ m₁ with conts := left.drop i ++ k :: rest }, ?_, begins.control⟩
    rw [Machine.run, stepped]
    exact unwound (Nat.le_of_lt_succ early)
  · have all := unwound (Nat.le_refl left.length)
    rw [List.drop_length, List.nil_append] at all
    rw [Machine.run, stepped]
    have last : { m₁ with conts := k :: rest }.step script = unwindStep { m₁ with conts := rest } v k := by
      rw [Machine.step, begins.control]
    exact (run_add all 1).trans ((run_one script _).trans last)

/-- A return that is given at the level of a call. Unless a loop is at its first or last clause there, each
    continuation of the call is dropped and nothing else happens, and then the value of the return is where the
    call was made, with all that was on the stack there. Otherwise the innermost such loop drops the value
    and goes on with its test. -/
theorem return_ends_call (active : Active script m₀ m) (level : m.frames.length = m₀.frames.length + 1)
    (returns : Returns m v) :
    ∃ inner, m.conts = inner ++ .callEnd :: m₀.conts ∧
      ((∀ k ∈ inner, k.keepsReturn = false) → ∃ steps, OnlyUnwinds script m v steps ∧
        m.run script (steps + 1) =
          .next { m with control := .deliver v, conts := m₀.conts, frames := m₀.frames }) ∧
      ∀ before c after, inner = before ++ .clausesStart c :: after →
        (∀ k ∈ before, k.keepsReturn = false) →
        ∃ steps m₁, OnlyUnwinds script m v steps ∧ m.run script (steps + 1) = clausesRound m₁ c ∧
          m₁.conts = after ++ .callEnd :: m₀.conts ∧ m₁.frames.tail = m₀.frames ∧
          m₁.globals = m.globals ∧ m₁.world = m.world := by
  obtain ⟨inner, above⟩ := active.above
  have own := above.own level
  have below : m.frames.tail = m₀.frames := above.below level
  refine ⟨inner, above.conts, fun passes => ?_, ?_⟩
  · obtain ⟨steps, m₁, begins, only, ran⟩ := returns.run script above.conts own passes rfl
    refine ⟨steps, only, ran.trans (congrArg Step.next ?_)⟩
    rw [endCall, begins.below, begins.globals, begins.world, begins.sent, below]
  · rintro before c after rfl passes
    have conts : m.conts = before ++ .clausesStart c :: (after ++ .callEnd :: m₀.conts) := by
      rw [above.conts, List.append_assoc, List.cons_append]
    obtain ⟨steps, m₁, begins, only, ran⟩ := returns.run script conts
      (fun k mem => own k (List.mem_append_left _ mem)) passes rfl
    exact ⟨steps, _, only, ran, rfl, begins.below.trans below, begins.globals, begins.world⟩

/-- A function that returns 1 in the first clause of a loop, and 2 behind the loop. -/
def hasty : FnDef :=
  let p : Pos := .start
  let loop : Stmt := .clauses (some (.ret (some (.num 1.0 p)) p)) (some (.bool false p)) none [] p
  ⟨"hasty", [], [loop, .ret (some (.num 2.0 p)) p], p⟩

/-- The return in the first clause is lost, and the call goes on to the second return. -/
theorem return_in_first_clause :
    let script : Script := ⟨[], [hasty], 8⟩
    let m₀ : Machine := default
    ∃ m, Active script m₀ m ∧ m.frames.length = m₀.frames.length + 1 ∧ Returns m (.num 1.0) ∧
      (∃ steps m₁ c, OnlyUnwinds script m (.num 1.0) steps ∧ m.run script (steps + 1) = clausesRound m₁ c) ∧
      ∃ steps, m.run script steps =
        .next { m with control := .deliver (.num 2.0), conts := m₀.conts, frames := m₀.frames } := by
  intro script m₀
  have begun : Active script m₀ _ := .begun (rfl : callUser script m₀ hasty [] 1 = _)
  have loops := begun.next rfl (by decide)
  have clause := loops.next rfl (by decide)
  have returns := clause.next rfl (by decide)
  have valued := returns.next rfl (by decide)
  refine ⟨_, valued, rfl, .valued rfl rfl, ?_, ?_⟩
  · obtain ⟨inner, conts, -, loses⟩ := return_ends_call valued rfl (.valued rfl rfl)
    have whole : [.giveBack, .clausesStart ⟨some (.bool false .start), none, []⟩,
        .block [.ret (some (.num 2.0 .start)) .start]] ++ [.callEnd] = inner ++ [.callEnd] := conts
    obtain ⟨steps, m₁, only, ran, -⟩ :=
      loses [.giveBack] _ _ (List.append_cancel_right whole).symm (by simp [Cont.keepsReturn])
    exact ⟨steps, m₁, _, only, ran⟩
  · exact ⟨10, rfl⟩

end Machine

end Sketch
