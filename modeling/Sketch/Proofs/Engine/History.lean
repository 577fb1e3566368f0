import Sketch.Proofs.Engine.Rest
import Sketch.Proofs.Engine.Sequel

/-!
A run does not depend on what an engine did before. Two engines that hold the same keys and buttons and get the same
order do the same from then on.
-/

namespace Sketch

/-! ### Moves behind a past -/

namespace Move

/-- A move as it is seen from the moment at which `e` gets a new order, if it concerns no earlier order. -/
def since? (e : Engine) : Move → Option Move
  | .answer order reply =>
    if order < e.runs.length then none else some (.answer (order - e.runs.length) reply)
  | .poll order => if order < e.runs.length then none else some (.poll (order - e.runs.length))
  | .clock time => some (.clock (time - e.now))
  | .execute source => some (.execute source)
  | .stop => some .stop
  | .device d => some (.device d)

/-- The move that is seen as a given one. -/
def after (e : Engine) : Move → Move
  | .answer order reply => .answer (e.runs.length + order) reply
  | .poll order => .poll (e.runs.length + order)
  | .clock time => .clock (e.now + time)
  | .execute source => .execute source
  | .stop => .stop
  | .device d => .device d

/-- A move with the clock set on by `t`. -/
def later (t : Nat) : Move → Move
  | .clock time => .clock (t + time)
  | .answer order reply => .answer order reply
  | .poll order => .poll order
  | .execute source => .execute source
  | .stop => .stop
  | .device d => .device d

theorem since?_after (e : Engine) (m : Move) : (m.after e).since? e = some m := by
  have behind (k : Nat) : ¬e.runs.length + k < e.runs.length := Nat.not_lt.mpr (Nat.le_add_right _ k)
  cases m with
  | answer k reply => rw [after, since?, if_neg (behind k), Nat.add_sub_cancel_left]
  | poll k => rw [after, since?, if_neg (behind k), Nat.add_sub_cancel_left]
  | clock time => rw [after, since?, Nat.add_sub_cancel_left]
  | execute | stop | device => rfl

end Move

namespace Engine

namespace Sequel

variable {e g f : Engine} (sequel : Sequel e g f)

include sequel

variable {m : Move}

/-- A move that is seen does the same as it does without a past. -/
theorem move? (sound : Sound g) (sound' : Sound f) {seen : Move} (since : m.since? e = some seen) :
    Option.Rel (Sequel e) (g.move? (seen.later (e.now % millisecond))) (f.move? m) := by
  have unlessBusy {g' f' : Option Engine} (same : Option.Rel (Sequel e) g' f') :
      Option.Rel (Sequel e) (if g.busy then none else g') (if f.busy then none else f') := by
    rw [sequel.busy sound']
    split
    · exact .none
    · exact same
  cases m with
  | execute source =>
    cases since
    exact unlessBusy (.some (sequel.execute source))
  | stop =>
    cases since
    exact unlessBusy (.some (sequel.stop sound))
  | device d =>
    cases since
    exact unlessBusy (.some (sequel.withDevices (sequel.devices.receive d)))
  | clock time =>
    cases since
    refine .some (sequel.clock ?_)
    have now := sequel.now
    have started := sequel.started
    have whole := e.wholeTime_add
    omega
  | answer order reply =>
    rw [Move.since?] at since
    split at since
    case isTrue => cases since
    case isFalse late =>
      cases since
      obtain ⟨k, rfl⟩ := Nat.exists_eq_add_of_le (Nat.not_lt.mp late)
      rw [Nat.add_sub_cancel_left]
      exact unlessBusy (sequel.answer? k reply)
  | poll order =>
    rw [Move.since?] at since
    split at since
    case isTrue => cases since
    case isFalse late =>
      cases since
      obtain ⟨k, rfl⟩ := Nat.exists_eq_add_of_le (Nat.not_lt.mp late)
      rw [Nat.add_sub_cancel_left]
      exact sequel.poll? sound' k

/-- A move that is not seen changes nothing that is. -/
theorem unseen (sound : Sound f) (since : m.since? e = none) {next : Engine}
    (made : f.move? m = some next) : Sequel e g next := by
  cases made_of_move? made with
  | execute | stop | device | clock => cases since
  | answer reply found asks =>
    rw [Move.since?] at since
    split at since
    case isTrue early =>
      have gone := sequel.gone early found
      exact sequel.setGone early gone
    case isFalse => cases since
  | poll found wakes =>
    rw [Move.since?] at since
    split at since
    case isTrue early => exact sequel.goOnGone sound early found wakes
    case isFalse => cases since

end Sequel

/-! ### Schedules -/

/-- Makes moves one after the other. -/
def play? (e : Engine) (moves : List Move) : Option Engine := moves.foldlM move? e

theorem play?_cons (e : Engine) (m : Move) (moves : List Move) :
    e.play? (m :: moves) = (e.move? m).bind (·.play? moves) := rfl

/-- Moves as they are seen from the moment at which `e` gets a new order. -/
def seen (e : Engine) (moves : List Move) : List Move := moves.filterMap (Move.since? e)

namespace Sequel

variable {e g f : Engine}

/-- A schedule does what those of its moves do that are seen. -/
theorem play {moves : List Move} (sequel : Sequel e g f) (sound : Sound g) (sound' : Sound f) {later : Engine}
    (played : f.play? moves = some later) :
    ∃ g', g.play? ((e.seen moves).map (Move.later (e.now % millisecond))) = some g' ∧ Sequel e g' later := by
  induction moves generalizing g f with
  | nil =>
    cases played
    exact ⟨g, rfl, sequel⟩
  | cons m moves ih =>
    rw [play?_cons, Option.bind_eq_some_iff] at played
    obtain ⟨next, made, played⟩ := played
    have soundNext := sound'.move? made
    cases since : m.since? e with
    | none =>
      rw [seen, List.filterMap_cons_none since]
      exact ih (sequel.unseen sound' since made) sound soundNext played
    | some seen =>
      have same := sequel.move? sound sound' since
      rw [made] at same
      generalize step : g.move? (seen.later (e.now % millisecond)) = result at same
      cases same with
      | @some g' _ sequel' =>
        obtain ⟨g'', played', sequel''⟩ :=
          ih sequel' (sound.move? step) soundNext played
        refine ⟨g'', ?_, sequel''⟩
        rw [Engine.seen, List.filterMap_cons_some since, List.map_cons, play?_cons, step]
        exact played'

/-- What is seen can happen behind any past. -/
theorem replay {seen : List Move} (sequel : Sequel e g f) (sound : Sound g) (sound' : Sound f) {g' : Engine}
    (played : g.play? (seen.map (Move.later (e.now % millisecond))) = some g') :
    ∃ later, f.play? (seen.map (Move.after e)) = some later ∧ Sequel e g' later := by
  induction seen generalizing g f with
  | nil =>
    cases played
    exact ⟨f, rfl, sequel⟩
  | cons m seen ih =>
    rw [List.map_cons, play?_cons, Option.bind_eq_some_iff] at played
    obtain ⟨next, made, played⟩ := played
    have same := sequel.move? sound sound' (Move.since?_after e m)
    rw [made] at same
    generalize step : f.move? (m.after e) = result at same
    cases same with
    | @some _ f' sequel' =>
      obtain ⟨later, played', sequel''⟩ :=
        ih sequel' (sound.move? made) (sound'.move? step) played
      refine ⟨later, ?_, sequel''⟩
      rw [List.map_cons, play?_cons, step]
      exact played'

end Sequel

theorem seen_map_after (e : Engine) (moves : List Move) : e.seen (moves.map (Move.after e)) = moves := by
  have back : Move.since? e ∘ Move.after e = some := funext (Move.since?_after e)
  rw [seen, List.filterMap_map, back, List.filterMap_some]

/-! ### What is observed -/

/-- What the display has received since an engine was `e`. -/
def shownSince (e f : Engine) : List HostEvent := (f.log.drop e.log.length).flatMap Output.events

/-- All that has come out since an engine was `e` on account of later orders. -/
def toldSince (e f : Engine) : List Output :=
  (f.log.drop e.log.length).filterMap (Output.since? e.runs.length)

namespace Sequel

variable {e g f : Engine} (sequel : Sequel e g f)

include sequel

theorem toldSince_eq : toldSince e f = g.log := by
  obtain ⟨more, whole, since, -⟩ := sequel.log
  rw [toldSince, whole, List.drop_left, since]

theorem shownSince_eq : shownSince e f = g.shown := by
  obtain ⟨more, whole, since, silent⟩ := sequel.log
  rw [shownSince, whole, List.drop_left, shown, ← since]
  clear whole since
  induction more with
  | nil => rfl
  | cons o more ih =>
    have rest := ih fun o mem => silent o (List.mem_cons_of_mem _ mem)
    by_cases early : o.order < e.runs.length
    · have skipped : o.since? e.runs.length = none := if_pos early
      rw [List.flatMap_cons, silent o List.mem_cons_self early, List.filterMap_cons_none skipped, rest]
      rfl
    · have kept : o.since? e.runs.length = some _ := if_neg early
      rw [List.flatMap_cons, List.filterMap_cons_some kept, List.flatMap_cons, Output.events_withOrder, rest]

theorem currentRun?_eq {k : Nat} (current : g.current = some k) :
    f.currentRun? = g.currentRun?.map (Run.later e.wholeTime) := by
  rw [currentRun?, currentRun?, current, sequel.current current]
  exact sequel.runs k

end Sequel

namespace Sequel

variable {e g f : Engine}

theorem wake? (sequel : Sequel e g f) (k : Nat) :
    f.wake? (e.runs.length + k) =
      (g.run? k).bind fun r => r.wake?.map fun time => if r.isTimed then e.wholeTime + time else time := by
  rw [Engine.wake?, sequel.runs, Option.bind_map]
  congr 1
  funext r
  exact Run.wake?_later e.wholeTime_dvd r

/-- What happens next behind a past is something old, or happens next without it. -/
theorem next?_eq_some (sequel : Sequel e g f) (sound : Sound g) (sound' : Sound f) {time' order : Nat}
    (next : f.next? = some (time', order)) :
    (order < e.runs.length ∧ time' = 0) ∨
      ∃ k time r, order = e.runs.length + k ∧ g.next? = some (time, k) ∧ g.run? k = some r ∧
        r.wake? = some time ∧ time' = if r.isTimed then e.wholeTime + time else time := by
  have same := sequel.busy sound'
  cases busy : f.busy with
  | true =>
    obtain ⟨order', -, next', -, -, last'⟩ := sound'.next?_of_busy busy
    obtain ⟨k, r, first, found, running, last⟩ := sound.next?_of_busy (same ▸ busy)
    obtain ⟨wakes, untimed⟩ := wake?_of_running running
    have length := sequel.length
    cases next.symm.trans next'
    refine .inr ⟨k, 0, r, by omega, first, found, wakes, ?_⟩
    rw [untimed]
    rfl
  | false =>
    obtain ⟨here, before⟩ := (sound'.next?_eq_some_iff busy time' order).mp next
    by_cases early : order < e.runs.length
    · obtain ⟨r, found, wakes⟩ := Option.bind_eq_some_iff.mp here
      exact .inl ⟨early, sound'.wake?_of_cancelled found (sequel.gone early found) wakes⟩
    · obtain ⟨k, rfl⟩ := Nat.exists_eq_add_of_le (Nat.not_lt.mp early)
      rw [sequel.wake?, Option.bind_eq_some_iff] at here
      obtain ⟨r, found, here⟩ := here
      obtain ⟨time, wakes, rfl⟩ := Option.map_eq_some_iff.mp here
      have first : g.next? = some (time, k) := by
        rw [sound.next?_eq_some_iff (same ▸ busy)]
        refine ⟨by rw [Engine.wake?, found]; exact wakes, ?_⟩
        intro j earlier
        have none := before (e.runs.length + j) (Nat.add_lt_add_left earlier _)
        rw [sequel.wake?] at none
        rw [Engine.wake?]
        cases found : g.run? j with
        | none => rfl
        | some r =>
          rw [found] at none
          exact Option.map_eq_none_iff.mp none
      exact .inr ⟨k, time, r, rfl, first, found, wakes, rfl⟩

/-- Times are due as they are counted from the beginning of the sequel. -/
theorem intime_iff (e : Engine) {r : Run} {time : Nat} (wakes : r.wake? = some time) (target : Nat) :
    (if r.isTimed then e.wholeTime + time else time) ≤ e.wholeTime + target ↔ time ≤ target := by
  cases timed : r.isTimed with
  | true => exact Nat.add_le_add_iff_left
  | false =>
    rw [Run.wake?_of_not_isTimed timed wakes]
    exact iff_of_true (Nat.zero_le _) (Nat.zero_le _)

variable {target : Nat}

/-- What happens next is old, or happens without the past as well. -/
theorem tick? (sequel : Sequel e g f) (sound : Sound g) (sound' : Sound f) {f' : Engine}
    (tick : f.tick? (e.wholeTime + target) = some f') :
    Sequel e g f' ∨ ∃ g', g.tick? target = some g' ∧ Sequel e g' f' := by
  obtain ⟨order, time', r', next, intime, found', wakes', rfl⟩ := sound'.tick?_eq_some tick
  rcases sequel.next?_eq_some sound sound' next with ⟨early, rfl⟩ | ⟨k, time, r, rfl, first, found, wakes, rfl⟩
  · rw [Nat.max_zero]
    exact .inl (sequel.goOnGone sound' early found' wakes')
  · obtain ⟨g', tick'⟩ := tick?_isSome first ((intime_iff e wakes target).mp intime)
    obtain ⟨_, _, _, first', -, here, -, rfl⟩ := sound.tick?_eq_some tick'
    cases first.symm.trans first'
    cases found.symm.trans here
    rw [sequel.runs, found] at found'
    cases found'
    refine .inr ⟨_, tick', (sequel.clock ?_).goOn (lt_of_run? found) r⟩
    rw [sequel.now]
    cases timed : r.isTimed with
    | true => exact Nat.add_max_add_left _ _ _
    | false =>
      rw [Run.wake?_of_not_isTimed timed wakes, Nat.max_zero]
      exact Nat.max_zero _

/-- Where nothing is due behind a past, nothing is due without it. -/
theorem rests (sequel : Sequel e g f) (sound : Sound g) (sound' : Sound f)
    (rest : f.tick? (e.wholeTime + target) = none) : g.tick? target = none := by
  cases tick : g.tick? target with
  | none => rfl
  | some g' =>
    obtain ⟨k, time, r, first, intime, found, wakes, -⟩ := sound.tick?_eq_some tick
    obtain ⟨time', order, next⟩ : ∃ time' order, f.next? = some (time', order) := by
      cases busy : f.busy with
      | true =>
        obtain ⟨order, -, next, -⟩ := sound'.next?_of_busy busy
        exact ⟨0, order, next⟩
      | false =>
        obtain ⟨soon, here⟩ : ∃ soon, f.wake? (e.runs.length + k) = some soon := by
          rw [sequel.wake?, found, Option.bind_some, wakes]
          exact ⟨_, rfl⟩
        exact sound'.next?_isSome busy here
    have intime' : time' ≤ e.wholeTime + target := by
      rcases sequel.next?_eq_some sound sound' next with ⟨-, rfl⟩ | ⟨k', time, r, -, first', -, wakes, rfl⟩
      · exact Nat.zero_le _
      · cases first.symm.trans first'
        exact (intime_iff e wakes target).mpr intime
    obtain ⟨later, tick'⟩ := tick?_isSome next intime'
    rw [rest] at tick'
    cases tick'

/-- Behind a past, an engine comes to rest as it does without it. -/
theorem comes (sequel : Sequel e g f) (sound : Sound g) (sound' : Sound f) {target : Nat} {f' : Engine}
    (comes : Comes (e.wholeTime + target) f f') : ∃ g', Comes target g g' ∧ Sequel e g' f' := by
  induction comes generalizing g with
  | rests rest =>
    refine ⟨_, .rests (sequel.rests sound sound' rest), sequel.clock ?_⟩
    rw [sequel.now, Nat.add_max_add_left]
  | ticks tick _ ih =>
    have soundNext := sound'.tick? tick
    rcases sequel.tick? sound sound' tick with sequel' | ⟨g', tick', sequel'⟩
    · exact ih sequel' sound soundNext
    · obtain ⟨g'', comes, sequel''⟩ := ih sequel' (sound.tick? tick') soundNext
      exact ⟨g'', .ticks tick' comes, sequel''⟩

end Sequel

namespace Sequel

variable {e g f : Engine}

variable {m : Move}

theorem moveOr (sequel : Sequel e g f) (sound : Sound g) (sound' : Sound f) {seen : Move}
    (since : m.since? e = some seen) : Sequel e (g.moveOr (seen.later (e.now % millisecond))) (f.moveOr m) := by
  have same := sequel.move? sound sound' since
  unfold Engine.moveOr
  generalize g.move? (seen.later (e.now % millisecond)) = result at same ⊢
  generalize f.move? m = result' at same ⊢
  cases same with
  | none => exact sequel
  | some sequel' => exact sequel'

theorem moveOr_unseen (sequel : Sequel e g f) (sound : Sound f) (since : m.since? e = none) :
    Sequel e g (f.moveOr m) := by
  rw [Engine.moveOr]
  cases made : f.move? m with
  | none => exact sequel
  | some next => exact sequel.unseen sound since made

theorem asked?_eq (sequel : Sequel e g f) {k : Nat} (current : g.current = some k) :
    f.asked? = g.asked?.map (e.runs.length + ·) := by
  unfold Engine.asked?
  rw [current, sequel.current current]
  simp only [Option.bind_eq_bind, Option.bind_some, sequel.runs]
  cases g.run? k with
  | none => rfl
  | some r =>
    have later : (r.later e.wholeTime).phase = r.phase.later e.wholeTime := rfl
    simp only [Option.map_some, Option.bind_some, later]
    match r.phase with
    | .waiting _ (.reply none) => rfl
    | .waiting _ (.reply (some _)) | .waiting _ (.time _) => rfl
    | .running _ | .scheduled _ | .resting _ _ | .crashed | .ended => rfl

/-- An answer reaches the same question, or one that no longer counts. -/
theorem replied (sequel : Sequel e g f) (sound : Sound g) (sound' : Sound f) (text : Option String) :
    Sequel e (g.apply (.reply text)) (f.apply (.reply text)) := by
  rw [Engine.apply, Engine.apply]
  cases current : g.current with
  | some k =>
    rw [sequel.asked?_eq current]
    cases g.asked? with
    | none => exact sequel
    | some j =>
      have since : (Move.answer (e.runs.length + j) text).since? e = some (.answer j text) :=
        Move.since?_after e (.answer j text)
      exact sequel.moveOr sound sound' since
  | none =>
    have silent : g.asked? = none := by
      rw [Engine.asked?, current]
      rfl
    rw [silent]
    cases asked : f.asked? with
    | none => exact sequel
    | some order =>
      have early := sequel.past current (current_of_asked? asked)
      exact sequel.moveOr_unseen sound' (if_pos early)

theorem prompted (sequel : Sequel e g f) (sound : Sound g) (sound' : Sound f) (event : EngineEvent) :
    Sequel e (g.prompted event) (f.prompted event) := by
  cases event with
  | sleep => exact sequel
  | execute source => exact sequel.moveOr sound sound' (m := .execute source) rfl
  | stop => exact sequel.moveOr sound sound' (m := .stop) rfl
  | device d => exact sequel.moveOr sound sound' (m := .device d) rfl
  | reply text => exact sequel.replied sound sound' text

/-- Events are handled behind a past as they are without it. -/
theorem handled (sequel : Sequel e g f) (sound : Sound g) (sound' : Sound f) {events : List EngineEvent}
    {f' : Engine} (handled : Handled f events f') : ∃ g', Handled g events g' ∧ Sequel e g' f' := by
  induction handled generalizing g with
  | nil => exact ⟨g, .nil g, sequel⟩
  | @cons f next later event events comes _ ih =>
    have target : f.now + event.duration = e.wholeTime + (g.now + event.duration) := by
      rw [sequel.now, Nat.add_assoc]
    rw [target] at comes
    have soundG := sound.reaches (reaches_prompted g event)
    have soundF := sound'.reaches (reaches_prompted f event)
    obtain ⟨g', comes', sequel'⟩ := (sequel.prompted sound sound' event).comes soundG soundF comes
    obtain ⟨g'', handled', sequel''⟩ :=
      ih sequel' (soundG.reaches comes'.reaches) (soundF.reaches comes.reaches)
    exact ⟨g'', .cons comes' handled', sequel''⟩

end Sequel

/-! ### No history -/

variable {e g : Engine} {source : String}

theorem reaches_play? {later : Engine} {moves : List Move} (played : e.play? moves = some later) : e.Reaches later := by
  induction moves generalizing e with
  | nil =>
    cases played
    exact .refl
  | cons m moves ih =>
    rw [play?_cons, Option.bind_eq_some_iff] at played
    obtain ⟨next, made, played⟩ := played
    exact (Relation.ReflTransGen.single ⟨m, made⟩).trans (ih played)

/-- Two engines do the same since they were `e₁` and `e₂` and got the order to execute `source`. If the sketch was
    accepted, frames, globals, lists and maps are the same too. -/
structure AgreeSince (source : String) (e₁ f₁ e₂ f₂ : Engine) : Prop where
  shown : shownSince e₂ f₂ = shownSince e₁ f₁
  told : toldSince e₂ f₂ = toldSince e₁ f₁
  status : f₂.status = f₁.status
  frameCount : (compile source).isOk = true → f₂.frameCount = f₁.frameCount
  globals : (compile source).isOk = true → ∀ name, f₂.global? name = f₁.global? name
  heap : (compile source).isOk = true → f₂.heap = f₁.heap

theorem execute_current_isSome (compiles : (compile source).isOk = true) (e : Engine) :
    (e.execute source).current.isSome = true := by
  cases compiled : compile source with
  | error errors =>
    rw [compiled] at compiles
    cases compiles
  | ok result =>
    rw [execute_of_compile compiled]
    rfl

theorem Sound.fresh (e : Engine) : Sound e.fresh :=
  (Sound.new e.config e.answers).of_same rfl rfl rfl rfl

/-- Two sequels of one engine agree. -/
theorem Sequel.agreeSince {e₁ f₁ e₂ f₂ : Engine} (one : Sequel e₁ g f₁)
    (two : Sequel e₂ g f₂) (ran : (compile source).isOk = true → g.current.isSome = true) :
    AgreeSince source e₁ f₁ e₂ f₂ := by
  have machine (compiles : (compile source).isOk = true) :
      f₂.currentRun?.map Run.machine = f₁.currentRun?.map Run.machine := by
    obtain ⟨k, current⟩ := Option.isSome_iff_exists.mp (ran compiles)
    have later (t : Nat) : Run.machine ∘ Run.later t = Run.machine := rfl
    rw [one.currentRun?_eq current, two.currentRun?_eq current, Option.map_map, Option.map_map, later, later]
  constructor
  case shown => rw [one.shownSince_eq, two.shownSince_eq]
  case told => rw [one.toldSince_eq, two.toldSince_eq]
  case status => rw [one.status, two.status]
  case frameCount =>
    intro compiles
    have same := congrArg (Option.map fun m => m.world.canvas.frameCount) (machine compiles)
    rw [Option.map_map, Option.map_map] at same
    exact congrArg (Option.getD · 0) same
  case globals =>
    intro compiles name
    have same := congrArg (Option.bind · fun m => m.globals.get? name) (machine compiles)
    simp only [Option.bind_map] at same
    exact same
  case heap =>
    intro compiles
    have same := congrArg (Option.map fun m => m.world.heap) (machine compiles)
    rw [Option.map_map, Option.map_map] at same
    exact congrArg (Option.getD · .empty) same

/-- An order and the events after it go behind a past as they go without it. -/
theorem Sequel.handleAll {events : List EngineEvent}
    (begun : Sequel e g (e.execute source)) (sound : Sound g) (sound' : Sound e) (free : e.busy = false)
    (settles : e.settlesAll (.execute source :: events) = true) :
    ∃ g₁ g₂, Comes (e.now % millisecond) g g₁ ∧ Handled g₁ events g₂ ∧
      Sequel e g₂ (e.handleAll (.execute source :: events)) := by
  have prompt : e.prompted (.execute source) = e.execute source := by
    rw [Engine.prompted, apply, Engine.moveOr, Engine.move?, free]
    rfl
  have target : e.now + (EngineEvent.execute source).duration = e.wholeTime + e.now % millisecond :=
    e.wholeTime_add.symm
  have handled := sound'.handled settles
  generalize e.handleAll (.execute source :: events) = later at handled ⊢
  cases handled with
  | cons comes rest =>
    rw [prompt, target] at comes
    have soundBegun := sound'.execute free source
    obtain ⟨g₁, comes₁, sequel₁⟩ := begun.comes sound soundBegun comes
    obtain ⟨g₂, handled₂, sequel₂⟩ :=
      sequel₁.handled (sound.reaches comes₁.reaches) (soundBegun.reaches comes.reaches) rest
    exact ⟨g₁, g₂, comes₁, handled₂, sequel₂⟩

theorem execute_surroundings (e : Engine) (source : String) : (e.execute source).surroundings = e.surroundings := by
  have cleared : (e.execute source).surroundings = e.prepared.surroundings := by
    unfold execute
    cases compile source <;> rfl
  rw [cleared, surroundings, prepared, teardown_eq]
  rfl

theorem moveOr_device (free : e.busy = false) (d : DeviceEvent) :
    e.moveOr (.device d) = { e with devices := e.devices.receive d } := by
  rw [moveOr, move?, free]
  rfl

/-- An engine that was not used yet, and whose questions somebody has to answer. -/
def pristine : Engine := .new default .live

/-- Then a sketch sets a global, changes the state of the canvas and asks. -/
def asking : Engine := (pristine.execute "x = \"old\"; push(); y = input(x)").moveOr (.poll 0)

/-- Nobody answers. A button is pressed and let go, and time passes. -/
def abandoned : Engine :=
  ((asking.moveOr (.device (.mouseDown .left))).moveOr (.device (.mouseUp .left))).moveOr
    (.clock (3 * millisecond))

theorem abandoned_reachable : abandoned.Reachable := by
  have asked : pristine.Reaches asking := (reaches_moveOr _ (.execute _)).trans (reaches_moveOr _ _)
  have left : asking.Reaches abandoned :=
    .trans (.trans (reaches_moveOr _ _) (reaches_moveOr _ _)) (reaches_moveOr _ _)
  exact ⟨default, .live, asked.trans left⟩

/-- A run does not depend on history. Take two engines in use, neither in the middle of its work, that have
    the same configuration, hold the same buttons and keys, point at the same place and stand at the same
    point of a millisecond, and let both execute a sketch. Whatever schedule of moves one of them then goes
    through, the other one can go through as well, but for what old runs have left to do; and wherever both
    have gone through the same, they agree in all that can be observed. In the same way they agree after any
    events that a display gives to both, as long as each of them comes to its end. -/
theorem run_independent_of_history {e₁ e₂ : Engine} (used₁ : e₁.Reachable) (used₂ : e₂.Reachable)
    (free₁ : e₁.busy = false) (free₂ : e₂.busy = false) (config : e₂.config = e₁.config)
    (answers : e₂.answers = e₁.answers) (held : e₁.devices.HeldAlike e₂.devices)
    (grid : e₂.now % millisecond = e₁.now % millisecond) (source : String) :
    (∀ moves₁ f₁, (e₁.execute source).play? moves₁ = some f₁ →
      (∃ moves₂ f₂, (e₂.execute source).play? moves₂ = some f₂ ∧ e₂.seen moves₂ = e₁.seen moves₁) ∧
      ∀ moves₂ f₂, (e₂.execute source).play? moves₂ = some f₂ → e₂.seen moves₂ = e₁.seen moves₁ →
        AgreeSince source e₁ f₁ e₂ f₂) ∧
    ∀ events, e₁.settlesAll (.execute source :: events) = true →
      e₂.settlesAll (.execute source :: events) = true →
      AgreeSince source e₁ (e₁.handleAll (.execute source :: events)) e₂
        (e₂.handleAll (.execute source :: events)) := by
  have sound₁ := Sound.of_reachable used₁
  have sound₂ := Sound.of_reachable used₂
  -- Both engines are measured by one that has no past.
  let g := e₁.fresh.execute source
  have sound : Sound g := (Sound.fresh e₁).execute rfl source
  have begun₁ : Sequel e₁ g (e₁.execute source) :=
    .begins used₁ free₁ rfl rfl (.refl e₁.devices) rfl source
  have begun₂ : Sequel e₂ g (e₂.execute source) := .begins used₂ free₂ config answers held grid source
  have soundBegun₁ := sound₁.execute free₁ source
  have soundBegun₂ := sound₂.execute free₂ source
  have ran {g' : Engine} (reached : g.Reaches g') (compiles : (compile source).isOk = true) :
      g'.current.isSome = true :=
    current_isSome_of_reaches reached (execute_current_isSome compiles e₁.fresh)
  constructor
  · intro moves₁ f₁ played₁
    obtain ⟨g', played, sequel₁⟩ := begun₁.play sound soundBegun₁ played₁
    constructor
    · rw [← grid] at played
      obtain ⟨f₂, played₂, -⟩ := begun₂.replay sound soundBegun₂ played
      exact ⟨_, f₂, played₂, seen_map_after e₂ _⟩
    · intro moves₂ f₂ played₂ same
      obtain ⟨g'', played', sequel₂⟩ := begun₂.play sound soundBegun₂ played₂
      rw [same, grid, played] at played'
      cases played'
      exact sequel₁.agreeSince sequel₂ (ran (reaches_play? played))
  · intro events settles₁ settles₂
    obtain ⟨g₁, g', comes₁, handled₁, sequel₁⟩ := begun₁.handleAll sound sound₁ free₁ settles₁
    obtain ⟨g₂, g'', comes₂, handled₂, sequel₂⟩ := begun₂.handleAll sound sound₂ free₂ settles₂
    rw [grid] at comes₂
    cases comes₁.unique comes₂
    cases handled₁.unique handled₂
    exact sequel₁.agreeSince sequel₂ (ran (comes₁.reaches.trans handled₁.reaches))

/-- A question that is left open and a press that no frame has taken leave no trace. -/
theorem run_independent_of_open_question :
    (compile "x = input(\"?\")").isOk = true ∧ abandoned.Reachable ∧
      (abandoned.devices.clicks, abandoned.now, abandoned.status) = ([.left], 3 * millisecond, .executing) ∧
      (abandoned.run? 0).map (·.phase) = some (.waiting .opening (.reply none)) ∧
      AgreeSince "x = input(\"?\")"
        pristine (pristine.handleAll [.execute "x = input(\"?\")", .reply (some "new"), .stop])
        abandoned (abandoned.handleAll [.execute "x = input(\"?\")", .reply (some "new"), .stop]) := by
  have start : pristine.Reachable := ⟨default, .live, .refl⟩
  have around : asking.surroundings = pristine.surroundings :=
    (moveOr_poll_surroundings _ 0).trans (execute_surroundings pristine _)
  have pressed : asking.moveOr (.device (.mouseDown .left)) = _ := moveOr_device (by decide +kernel) _
  have released : (asking.moveOr (.device (.mouseDown .left))).moveOr (.device (.mouseUp .left)) = _ :=
    moveOr_device (by decide +kernel) _
  rw [pressed] at released
  have config : abandoned.config = pristine.config := by
    rw [abandoned, pressed, released]
    exact congrArg Prod.fst around
  have held : pristine.devices.HeldAlike abandoned.devices := by
    apply Devices.HeldAlike.of_discardClicks
    rw [abandoned, pressed, released]
    change ((asking.devices.mouseDown .left).discardClicks.mouseUp .left).discardClicks = _
    have devices : asking.devices.discardClicks = pristine.devices.discardClicks :=
      congrArg (fun around => around.2.1) around
    rw [Devices.discardClicks_mouseDown, devices]
    rfl
  have same := run_independent_of_history start abandoned_reachable (by decide +kernel) (by decide +kernel)
    config (by decide +kernel) held (by decide +kernel) "x = input(\"?\")"
  exact ⟨by decide +kernel, abandoned_reachable, by decide +kernel, by decide +kernel,
    same.2 _ (by decide +kernel) (by decide +kernel)⟩

end Engine

end Sketch
