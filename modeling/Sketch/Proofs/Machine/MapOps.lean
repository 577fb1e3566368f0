import Sketch.Proofs.Machine.Steps

/-!
What a running sketch does to maps. A step does at most one thing to them, which can be told from the machine before
the step, so the maps of a running sketch have a history.
-/

namespace Sketch

namespace Machine

/-- The entries that the next step stores. -/
def mapStores (script : Script) (m : Machine) : List MapStore := (m.mapOp? script).elim [] (·.stores m.world.heap)

/-- How a machine came about, with all stores into maps in order. Anything else may change between its steps. -/
inductive Came (script : Script) : List MapStore → Machine → Prop where
  | start (canvas : Canvas) : Came script [] (.start script canvas)
  | step {log : List MapStore} {m : Machine} (so : Came script log m) :
      Came script (log ++ m.mapStores script) (m.step script).machine
  | between {log : List MapStore} {m m' : Machine} (so : Came script log m) (same : m'.world.maps = m.world.maps) :
      Came script log m'

theorem step_came {script : Script} {log : List MapStore} {m : Machine} (came : m.world.Came log) :
    (m.step script).machine.world.Came (log ++ m.mapStores script) := by
  have world : (m.step script).machine.world = (m.step script).world := by cases m.step script <;> rfl
  have maps := step_maps script m
  rw [mapStores, world]
  cases done : m.mapOp? script with
  | none =>
    rw [done] at maps
    simpa using came.passes maps
  | some op =>
    rw [done] at maps
    exact (came.does op).passes maps

theorem Came.world {script : Script} {log : List MapStore} {m : Machine} (came : m.Came script log) :
    m.world.Came log := by
  induction came with
  | start canvas => exact .begins rfl
  | step so ih => exact step_came ih
  | between so same ih => exact ih.passes same

end Machine

/-- Maps remember the order in which their keys came. This holds after whatever was done to maps, however they hold one
    another, and every running sketch is in such a state, with the stores that its steps made one after the other. A
    map can then always be merged into a map, itself included. -/
theorem maps_remember_their_stores :
    (∀ {script : Script} {log : List MapStore} {m : Machine}, m.Came script log → m.world.Came log) ∧
    ∀ {log : List MapStore} {w : World}, w.Came log →
      (∀ r, w.heap.Made r → w.TellsMap log r) ∧
      ∀ r q, w.heap.Made r → w.heap.Made q →
        ∃ w', (ListFn.append.perform [.map r, .map q]).run w = .ok (.map r) w' ∧ w.Merges r q w' := by
  constructor
  · intro script log m came
    exact came.world
  · intro log w came
    constructor
    · intro r made
      exact came.tells made
    · intro r q made there
      exact append_merges made (came.tells there).distinct

/-- A map has a key twice, and another holds it. They are merged into each other and into themselves. -/
def mergings : List MapOp :=
  [.literal [("a", .bool true), ("b", .nil), ("a", .bool false)], .literal [("c", .map ⟨0⟩), ("b", .bool true)],
    .append ⟨0⟩ ⟨1⟩, .append ⟨0⟩ ⟨0⟩, .append ⟨1⟩ ⟨0⟩, .setItem ⟨1⟩ (.str "b") (.map ⟨1⟩)]

def merged : World := World.afterAll ⟨.empty, .fresh default (0.0, 0.0)⟩ mergings

/-- A sketch that stores a field of a map that it writes down. -/
def scribble : Script :=
  ⟨[.assign (.field (.map [("a", .nil default)] default) "a") none (.bool true default) default], [], 1⟩

theorem merged_maps_remember : (∃ m : Machine, m.Came scribble [⟨⟨0⟩, "a", .nil⟩, ⟨⟨0⟩, "a", .bool true⟩] ∧
      m.world.Came [⟨⟨0⟩, "a", .nil⟩, ⟨⟨0⟩, "a", .bool true⟩] ∧ m.world.heap.Made ⟨0⟩) ∧
    ∃ log, merged.Came log ∧ merged.heap.Made ⟨0⟩ ∧ merged.heap.Made ⟨1⟩ ∧
    (merged.heap.map ⟨0⟩).keys = ["a", "b", "c"] ∧ (merged.heap.map ⟨1⟩).keys = ["c", "b", "a"] ∧
    merged.heap.field (.map ⟨0⟩) "a" = .ok (.bool false) ∧
    merged.heap.item (.map ⟨0⟩) (.str "b") = .ok (.bool true) ∧
    (ListFn.getItem.perform [.map ⟨1⟩, .str "b"]).run merged = .ok (.map ⟨1⟩) merged ∧
    ∃ w', (ListFn.append.perform [.map ⟨1⟩, .map ⟨1⟩]).run merged = .ok (.map ⟨1⟩) w' ∧ merged.Merges ⟨1⟩ ⟨1⟩ w' := by
  constructor
  · have begun : Machine.Came scribble [] _ := .start (.fresh default (0.0, 0.0))
    have came : Machine.Came scribble [⟨⟨0⟩, "a", .nil⟩, ⟨⟨0⟩, "a", .bool true⟩] _ :=
      begun.step.step.step.step.step.step.step.step
    refine ⟨_, came, maps_remember_their_stores.1 came, ?_⟩
    rw [Heap.Made]
    decide +kernel
  · have bare : World.Came [] ⟨.empty, .fresh default (0.0, 0.0)⟩ := .begins rfl
    have came := bare.doesAll mergings
    obtain ⟨tells, merges⟩ := maps_remember_their_stores.2 came
    have made : merged.heap.Made ⟨0⟩ ∧ merged.heap.Made ⟨1⟩ := by
      simp only [Heap.Made]
      decide +kernel
    have one := tells ⟨0⟩ made.1
    have other := tells ⟨1⟩ made.2
    refine ⟨_, came, made.1, made.2, ?_, ?_, ?_, ?_, ?_, merges ⟨1⟩ ⟨1⟩ made.2 made.2⟩
    · exact one.order.trans (by decide +kernel)
    · exact other.order.trans (by decide +kernel)
    · exact (one.field "a").trans (congrArg Except.ok (by decide +kernel))
    · exact (one.item (.str "b")).trans (congrArg Except.ok (by decide +kernel))
    · exact (other.getItem (.str "b")).trans (congrArg (EStateM.Result.ok · merged) (by decide +kernel))

end Sketch
