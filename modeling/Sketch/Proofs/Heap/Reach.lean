import Mathlib.Data.List.Basic
import Sketch.Heap

/-!
The heap as a graph, with cycles and shared parts. A search that never enters a container twice on its way down finds
all that can be reached, and needs no more room than there are containers.
-/

namespace Sketch

def Container.value : Container → Value
  | .list r => .list r
  | .map r => .map r

def Value.container? : Value → Option Container
  | .list r => some (.list r)
  | .map r => some (.map r)
  | .nil | .num _ | .bool _ | .str _ | .library _ => none

@[simp] theorem Container.container?_value (c : Container) : c.value.container? = some c := by
  cases c <;> rfl

theorem Value.eq_value {v : Value} {c : Container} (same : v.container? = some c) : v = c.value := by
  cases v with
  | list | map =>
    simp only [container?, Option.some.injEq] at same
    rw [← same]
    rfl
  | nil | num | bool | str | library => simp [container?] at same

namespace Heap

variable {h : Heap}

/-- What a container holds, in order, each with the text that announces it. -/
def parts (h : Heap) : Container → List (String × Value)
  | .list r => (h.list r).toList.map fun v => ("", v)
  | .map r => (h.map r).entries.map fun entry => (entry.1 ++ ": ", entry.2)

def containers (h : Heap) : List Container :=
  (List.range h.lists.size).map (fun i => .list ⟨i⟩) ++ (List.range h.maps.size).map fun i => .map ⟨i⟩

theorem length_containers (h : Heap) : h.containers.length = h.size := by
  simp [containers, size]

variable {part : String × Value} {depth : Nat} {v : Value}

/-- Whatever holds something is a container of the heap. -/
theorem mem_containers_of_part {c : Container} (mem : part ∈ h.parts c) : c ∈ h.containers := by
  cases c with
  | list r =>
    by_cases made : r.index < h.lists.size
    · exact List.mem_append_left _ (List.mem_map.mpr ⟨r.index, List.mem_range.mpr made, rfl⟩)
    · simp [parts, list, Array.getD, made] at mem
  | map r =>
    by_cases made : r.index < h.maps.size
    · exact List.mem_append_right _ (List.mem_map.mpr ⟨r.index, List.mem_range.mpr made, rfl⟩)
    · simp [parts, map, Array.getD, made, Dict.empty] at mem

/-! ### Paths -/

/-- A container can be reached from a value over containers that are not `avoided`. -/
inductive ReachesPast (h : Heap) (avoided : List Container) : Value → Container → Prop where
  | here {c : Container} (free : c ∉ avoided) : ReachesPast h avoided c.value c
  | inside {c target : Container} {part : String × Value} (free : c ∉ avoided) (mem : part ∈ h.parts c)
      (deeper : ReachesPast h avoided part.2 target) : ReachesPast h avoided c.value target

/-- A value is the container, or holds a value that reaches it. -/
def Reaches (h : Heap) : Value → Container → Prop := h.ReachesPast []

namespace ReachesPast

variable {avoided : List Container} {v : Value} {c target : Container}

/-- What is reached first is the value itself. -/
theorem container (reached : h.ReachesPast avoided v target) :
    ∃ first, v.container? = some first ∧ first ∉ avoided := by
  cases reached with
  | here free => exact ⟨_, Container.container?_value _, free⟩
  | inside free => exact ⟨_, Container.container?_value _, free⟩

theorem of_value (reached : h.ReachesPast avoided c.value target) :
    c ∉ avoided ∧ (c = target ∨ ∃ part ∈ h.parts c, h.ReachesPast avoided part.2 target) := by
  generalize start : c.value = v at reached
  cases reached with
  | here free =>
    have same : c = target := by simpa using congrArg Value.container? start
    exact ⟨same ▸ free, .inl same⟩
  | @inside d _ part free mem deeper =>
    have same : c = d := by simpa using congrArg Value.container? start
    exact ⟨same ▸ free, .inr ⟨part, same ▸ mem, deeper⟩⟩

theorem mono {fewer : List Container} (less : fewer ⊆ avoided) (reached : h.ReachesPast avoided v target) :
    h.ReachesPast fewer v target := by
  induction reached with
  | here free => exact .here fun mem => free (less mem)
  | inside free mem _ ih => exact .inside (fun mem => free (less mem)) mem ih

/-- A path can be cut short behind its last visit to a container. -/
theorem past (reached : h.ReachesPast avoided v target) (other : c ≠ target) :
    h.ReachesPast (c :: avoided) v target ∨ ∃ part ∈ h.parts c, h.ReachesPast (c :: avoided) part.2 target := by
  induction reached with
  | here free => exact .inl (.here (by simp [free, Ne.symm other]))
  | @inside d target part free mem deeper ih =>
    rcases ih other with beyond | again
    · by_cases same : d = c
      · rw [same] at mem
        exact .inr ⟨part, mem, beyond⟩
      · exact .inl (.inside (by simp [free, same]) mem beyond)
    · exact .inr again

/-- Without a detour, what a container reaches is itself or reached from its parts. -/
theorem value_iff : h.ReachesPast avoided c.value target ↔
    c ∉ avoided ∧ (c = target ∨ ∃ part ∈ h.parts c, h.ReachesPast (c :: avoided) part.2 target) := by
  constructor
  · intro reached
    obtain ⟨free, same | ⟨part, mem, deeper⟩⟩ := reached.of_value
    · exact ⟨free, .inl same⟩
    · by_cases same : c = target
      · exact ⟨free, .inl same⟩
      · rcases deeper.past same with beyond | again
        · exact ⟨free, .inr ⟨part, mem, beyond⟩⟩
        · exact ⟨free, .inr again⟩
  · rintro ⟨free, rfl | ⟨part, mem, deeper⟩⟩
    · exact .here free
    · exact .inside free mem (deeper.mono (List.subset_cons_self c avoided))

end ReachesPast

theorem Reaches.of_part {c target : Container} (mem : part ∈ h.parts c)
    (reached : h.Reaches part.2 target) : h.Reaches c.value target :=
  ReachesPast.inside List.not_mem_nil mem reached

/-! ### Room -/

/-- Number of containers that are not opened yet. -/
def unopened (h : Heap) (opened : List Container) : Nat := (h.containers.filter (· ∉ opened)).length

theorem unopened_lt_room (h : Heap) : h.unopened [] < h.room := by
  simp [unopened, room, length_containers]

/-- Each container that is opened takes its place from those that are left. -/
theorem unopened_cons_lt {opened : List Container} {c : Container} (mem : part ∈ h.parts c)
    (free : c ∉ opened) : h.unopened (c :: opened) < h.unopened opened := by
  have left : h.containers.filter (· ∉ c :: opened) = (h.containers.filter (· ∉ opened)).filter (· ≠ c) := by
    rw [List.filter_filter]
    apply List.filter_congr
    intro d _
    simp [not_or]
  rw [unopened, left, unopened, List.length_filter_lt_length_iff_exists]
  refine ⟨c, List.mem_filter.mpr ⟨mem_containers_of_part mem, ?_⟩, ?_⟩
  · simpa using free
  · simp

/-! ### The search -/

theorem showsWithin_scalar {target : Container} {opened : List Container}
    (scalar : v.container? = none) : h.showsWithin target depth opened v = false := by
  cases v with
  | list | map => simp [Value.container?] at scalar
  | nil | num | bool | str | library => cases depth <;> simp [showsWithin]

theorem showsWithin_value {target c : Container} {opened : List Container} :
    h.showsWithin target (depth + 1) opened c.value =
      (decide (c ∉ opened) &&
        (decide (target = c) || (h.parts c).any fun part => h.showsWithin target depth (c :: opened) part.2)) := by
  cases c with
  | list r =>
    simp only [Container.value, showsWithin, parts, List.any_map]
    rw [Bool.eq_iff_iff]
    simp
  | map r =>
    simp only [Container.value, showsWithin, parts, List.any_map]
    rw [Bool.eq_iff_iff]
    simp

/-- With enough depth, a text shows what can be reached past the open containers. -/
theorem showsWithin_iff {target : Container} {opened : List Container} (enough : h.unopened opened < depth) :
    h.showsWithin target depth opened v = true ↔ h.ReachesPast opened v target := by
  induction depth generalizing opened v with
  | zero => exact absurd enough (Nat.not_lt_zero _)
  | succ depth ih =>
    cases kind : v.container? with
    | none =>
      rw [showsWithin_scalar kind]
      constructor
      · intro impossible
        cases impossible
      · intro reached
        obtain ⟨first, isFirst, -⟩ := reached.container
        rw [kind] at isFirst
        cases isFirst
    | some c =>
      rw [Value.eq_value kind, showsWithin_value, ReachesPast.value_iff]
      simp only [Bool.and_eq_true, Bool.or_eq_true, decide_eq_true_eq, List.any_eq_true]
      apply and_congr_right
      intro free
      apply or_congr eq_comm
      apply exists_congr
      intro part
      apply and_congr_right
      intro mem
      have smaller := unopened_cons_lt mem free
      exact ih (by omega)

/-- The text of a value shows the contents of a container exactly if the value reaches it. -/
theorem shows_iff {target : Container} : h.shows target v = true ↔ h.Reaches v target :=
  showsWithin_iff h.unopened_lt_room

instance {target : Container} {v : Value} : Decidable (h.Reaches v target) :=
  decidable_of_iff (h.shows target v = true) shows_iff

end Heap

end Sketch
