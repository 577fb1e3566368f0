import Sketch.Proofs.Heap.Reach

/-!
Printing values that share parts and hold themselves. A printer that keeps the open containers on a stack comes to an
end with the text of a tree, with a container in short inside its own printing.
-/

namespace Sketch

namespace Container

def left : Container → String
  | .list _ => "["
  | .map _ => "\x7b"

def right : Container → String
  | .list _ => "]"
  | .map _ => "\x7d"

/-- How a container is shown inside itself. -/
def short (c : Container) : String := c.left ++ "..." ++ c.right

/-- How a container is shown otherwise, by the texts of its parts. -/
def enclose (c : Container) (texts : List String) : String := c.left ++ ", ".intercalate texts ++ c.right

end Container

namespace Value

/-- The text of a value that is no container. -/
def plain : Value → String
  | .nil => "null"
  | .num x => Number.Spelling.sketch.write x
  | .bool b => if b then "true" else "false"
  | .str s => s
  | .library name => s!"<namespace {name}>"
  | .list _ | .map _ => ""

/-- How a value is written inside a container, given its text elsewhere. -/
def inner (text : String) : Value → String
  | .str s => Text.quoted s
  | .nil | .num _ | .bool _ | .library _ | .list _ | .map _ => text

end Value

namespace Heap

variable {h : Heap} {depth : Nat} {opened : List Container} {v : Value}

theorem render_scalar (scalar : v.container? = none) : h.render depth opened v = v.plain := by
  cases v with
  | list | map => simp [Value.container?] at scalar
  | nil | num | bool | str | library => cases depth <;> simp [render, Value.plain]

theorem render_value (c : Container) : h.render (depth + 1) opened c.value =
    if c ∈ opened then c.short
    else c.enclose ((h.parts c).map fun part => part.1 ++ part.2.inner (h.render depth (c :: opened) part.2)) := by
  have short : c.short = match c with
      | .list _ => "[...]"
      | .map _ => "\x7b...\x7d" := by cases c <;> rfl
  rw [short]
  cases c with
  | list r =>
    simp only [Container.value, render, List.contains_iff_mem, parts, List.map_map, Container.enclose]
    congr 4
    apply List.map_congr_left
    intro v _
    cases v <;> simp [Value.inner]
  | map r =>
    simp only [Container.value, render, List.contains_iff_mem, parts, List.map_map, Container.enclose]
    congr 4
    apply List.map_congr_left
    intro entry _
    obtain ⟨key, v⟩ := entry
    cases v <;> simp [Value.inner]

end Heap

/-! ### The tree that is printed -/

/-- What a printed value consists of. -/
inductive Shown where
  | scalar (v : Value)
  | short (c : Container)
  | full (c : Container) (parts : List (String × Shown))

namespace Shown

/-- The value that is shown. -/
def value : Shown → Value
  | .scalar v => v
  | .short c | .full c _ => c.value

def text : Shown → String
  | .scalar v => v.plain
  | .short c => c.short
  | .full c parts => c.enclose (parts.attach.map fun ⟨part, _⟩ => part.1 ++ part.2.value.inner part.2.text)
termination_by t => sizeOf t
decreasing_by
  rename_i mem
  obtain ⟨label, t⟩ := part
  have smaller := List.sizeOf_lt_of_mem mem
  simp only [Prod.mk.sizeOf_spec] at smaller
  simp only [full.sizeOf_spec]
  omega

theorem text_full (c : Container) (parts : List (String × Shown)) : (full c parts).text =
    c.enclose (parts.map fun part => part.1 ++ part.2.value.inner part.2.text) := by
  rw [text]
  congr 1
  exact List.attach_map_val (f := fun part : String × Shown => part.1 ++ part.2.value.inner part.2.text)

/-- What stands in a tree, with the containers around it that are shown in full. -/
inductive Has : Shown → List Container → Shown → Prop where
  | here {t : Shown} : Has t [] t
  | inside {c : Container} {parts : List (String × Shown)} {part : String × Shown} {around : List Container}
      {s : Shown} (mem : part ∈ parts) (deeper : Has part.2 around s) : Has (.full c parts) (around ++ [c]) s

/-- The tree of a value inside the containers `opened`: all that is held is shown, in order, and a container is shown
    in short exactly inside itself. -/
structure Depicts (h : Heap) (opened : List Container) (v : Value) (t : Shown) : Prop where
  root : t.value = v
  scalars : ∀ {around u}, t.Has around (.scalar u) → u.container? = none
  contents : ∀ {around c parts}, t.Has around (.full c parts) →
    parts.map (fun part => (part.1, part.2.value)) = h.parts c
  shortened : ∀ {around c}, t.Has around (.short c) → c ∈ around ++ opened
  unrolled : ∀ {around c parts}, t.Has around (.full c parts) → c ∉ around ++ opened

theorem Has.of_scalar {v : Value} {around : List Container} {s : Shown} (has : (scalar v).Has around s) :
    around = [] ∧ s = .scalar v := by
  cases has
  exact ⟨rfl, rfl⟩

theorem Has.of_short {c : Container} {around : List Container} {s : Shown} (has : (short c).Has around s) :
    around = [] ∧ s = .short c := by
  cases has
  exact ⟨rfl, rfl⟩

theorem Has.of_full {c : Container} {parts : List (String × Shown)} {around : List Container} {s : Shown}
    (has : (full c parts).Has around s) : (around = [] ∧ s = .full c parts) ∨
      ∃ part ∈ parts, ∃ inside, around = inside ++ [c] ∧ part.2.Has inside s := by
  cases has with
  | here => exact .inl ⟨rfl, rfl⟩
  | inside mem deeper => exact .inr ⟨_, mem, _, rfl, deeper⟩

namespace Depicts

variable {h : Heap} {opened : List Container} {c : Container} {parts : List (String × Shown)}

theorem of_scalar {v : Value} (scalar : v.container? = none) : (Shown.scalar v).Depicts h opened v where
  root := rfl
  scalars has := by
    obtain ⟨-, same⟩ := has.of_scalar
    cases same
    exact scalar
  contents has := by simpa using has.of_scalar
  shortened has := by simpa using has.of_scalar
  unrolled has := by simpa using has.of_scalar

theorem of_short (mem : c ∈ opened) : (Shown.short c).Depicts h opened c.value where
  root := rfl
  scalars has := by simpa using has.of_short
  contents has := by simpa using has.of_short
  shortened has := by
    obtain ⟨rfl, same⟩ := has.of_short
    cases same
    exact mem
  unrolled has := by simpa using has.of_short

theorem of_full (free : c ∉ opened) (whole : parts.map (fun part => (part.1, part.2.value)) = h.parts c)
    (each : ∀ part ∈ parts, part.2.Depicts h (c :: opened) part.2.value) :
    (Shown.full c parts).Depicts h opened c.value where
  root := rfl
  scalars has := by
    rcases has.of_full with ⟨-, same⟩ | ⟨part, mem, inside, -, deeper⟩
    · cases same
    · exact (each part mem).scalars deeper
  contents has := by
    rcases has.of_full with ⟨-, same⟩ | ⟨part, mem, inside, -, deeper⟩
    · cases same
      exact whole
    · exact (each part mem).contents deeper
  shortened has := by
    rcases has.of_full with ⟨-, same⟩ | ⟨part, mem, inside, rfl, deeper⟩
    · cases same
    · simpa using (each part mem).shortened deeper
  unrolled has := by
    rcases has.of_full with ⟨rfl, same⟩ | ⟨part, mem, inside, rfl, deeper⟩
    · cases same
      exact free
    · simpa using (each part mem).unrolled deeper

/-- What stands in a tree inside a container is printed inside it. -/
theorem part {v : Value} (depicts : (Shown.full c parts).Depicts h opened v) {part : String × Shown}
    (mem : part ∈ parts) : part.2.Depicts h (c :: opened) part.2.value where
  root := rfl
  scalars has := depicts.scalars (.inside mem has)
  contents has := depicts.contents (.inside mem has)
  shortened has := by simpa using depicts.shortened (.inside mem has)
  unrolled has := by simpa using depicts.unrolled (.inside mem has)

end Depicts

end Shown

namespace Heap

variable {h : Heap} {depth : Nat} {opened : List Container} {v : Value}

/-- The tree of a value inside the containers `opened`, at most `depth` deeper. -/
def tree (h : Heap) : (depth : Nat) → (opened : List Container) → Value → Shown
  | 0, _, v =>
    match v.container? with
    | none => .scalar v
    | some c => .short c
  | depth + 1, opened, v =>
    match v.container? with
    | none => .scalar v
    | some c =>
      if c ∈ opened then .short c
      else .full c ((h.parts c).map fun part => (part.1, h.tree depth (c :: opened) part.2))

theorem tree_scalar (scalar : v.container? = none) : h.tree depth opened v = .scalar v := by
  cases depth <;> simp [tree, scalar]

theorem tree_value (c : Container) : h.tree (depth + 1) opened c.value =
    if c ∈ opened then .short c
    else .full c ((h.parts c).map fun part => (part.1, h.tree depth (c :: opened) part.2)) := by
  simp [tree]

theorem value_tree : (h.tree depth opened v).value = v := by
  cases kind : v.container? with
  | none => simp [tree_scalar kind, Shown.value]
  | some c =>
    rw [Value.eq_value kind]
    cases depth with
    | zero => simp [tree, Shown.value]
    | succ depth =>
      rw [tree_value]
      split <;> rfl

/-- What is printed is the text of the tree. -/
theorem text_tree : (h.tree depth opened v).text = h.render depth opened v := by
  induction depth generalizing opened v with
  | zero =>
    cases v <;> simp [tree, Value.container?, Shown.text, render, Value.plain] <;> rfl
  | succ depth ih =>
    cases kind : v.container? with
    | none => rw [tree_scalar kind, render_scalar kind, Shown.text]
    | some c =>
      rw [Value.eq_value kind, tree_value, render_value]
      split
      · rw [Shown.text]
      · simp [Shown.text_full, value_tree, ih, Function.comp_def]

theorem depicts_tree (enough : h.unopened opened < depth) : (h.tree depth opened v).Depicts h opened v := by
  induction depth generalizing opened v with
  | zero => exact absurd enough (Nat.not_lt_zero _)
  | succ depth ih =>
    cases kind : v.container? with
    | none =>
      rw [tree_scalar kind]
      exact .of_scalar kind
    | some c =>
      rw [Value.eq_value kind, tree_value]
      split
      case isTrue mem => exact .of_short mem
      case isFalse free =>
        apply Shown.Depicts.of_full free
        · simp [value_tree, Function.comp_def]
        · intro part mem
          obtain ⟨held, isPart, rfl⟩ := List.mem_map.mp mem
          have smaller := unopened_cons_lt isPart free
          rw [value_tree]
          exact ih (by omega)

/-- No other tree depicts a value. -/
theorem eq_tree {t : Shown} (enough : h.unopened opened < depth) (depicts : t.Depicts h opened v) :
    t = h.tree depth opened v := by
  induction depth generalizing opened v t with
  | zero => exact absurd enough (Nat.not_lt_zero _)
  | succ depth ih =>
    cases t with
    | scalar u =>
      have scalar := depicts.scalars .here
      have same : u = v := depicts.root
      rw [← same, tree_scalar scalar]
    | short c =>
      have same : c.value = v := depicts.root
      have mem : c ∈ opened := depicts.shortened .here
      rw [← same, tree_value, if_pos mem]
    | full c parts =>
      have same : c.value = v := depicts.root
      have free : c ∉ opened := depicts.unrolled .here
      rw [← same, tree_value, if_neg free, ← depicts.contents .here, List.map_map]
      congr 1
      -- A part is the tree of its value: both stand inside one more container.
      have each : ∀ part ∈ parts, part = (part.1, h.tree depth (c :: opened) part.2.value) := by
        intro part mem
        have isPart : (part.1, part.2.value) ∈ h.parts c := by
          rw [← depicts.contents .here]
          exact List.mem_map.mpr ⟨part, mem, rfl⟩
        have smaller := unopened_cons_lt isPart free
        rw [← ih (by omega) (depicts.part mem)]
      exact (List.map_id parts).symm.trans (List.map_congr_left each)

/-! ### A printer with a stack -/

/-- What a printer does with its stack of open containers. It may break off, or go on without end. -/
abbrev Printing (α : Type) := ExceptT Container (StateT (List Container) Option) α

/-- Prints a value while a container may be held by somebody who is changing it. -/
def write (h : Heap) (held : Option Container) (v : Value) : Printing String := do
  match v.container? with
  | none => pure v.plain
  | some c =>
    if c ∈ (← get) then pure c.short
    else
      modify (c :: ·)
      if held = some c then throw c
      else
        let texts ← (h.parts c).mapM fun part => do
          let text ← h |>.write held part.2
          pure (part.1 ++ part.2.inner text)
        modify List.tail
        pure (c.enclose texts)
partial_fixpoint

def writePart (h : Heap) (held : Option Container) (part : String × Value) : Printing String := do
  let text ← h.write held part.2
  pure (part.1 ++ part.2.inner text)

section Printer

variable {held : Option Container}

theorem write_scalar (scalar : v.container? = none) : h.write held v opened = some (.ok v.plain, opened) := by
  rw [write]
  simp only [scalar]
  rfl

/-- How a container is printed, by the three cases of the printer. -/
theorem write_value (c : Container) : h.write held c.value opened =
    if c ∈ opened then some (.ok c.short, opened)
    else if held = some c then some (.error c, c :: opened)
    else
      (((h.parts c).mapM (h.writePart held)) (c :: opened)).map fun r =>
        match r.1 with
        | .ok texts => (.ok (c.enclose texts), r.2.tail)
        | .error d => (.error d, r.2) := by
  rw [write]
  simp only [Container.container?_value]
  by_cases mem : c ∈ opened
  · rw [if_pos mem]
    change (if c ∈ opened then (pure c.short : Printing String) else _) opened = _
    rw [if_pos mem]
    rfl
  · rw [if_neg mem]
    change (if c ∈ opened then (pure c.short : Printing String) else _) opened = _
    rw [if_neg mem]
    change (if held = some c then (throw c : Printing String) else _) (c :: opened) = _
    split
    · rfl
    · change ((h.parts c).mapM (h.writePart held) >>= _) (c :: opened) = _
      simp only [bind, ExceptT.bind, ExceptT.mk, StateT.bind]
      cases ran : (h.parts c).mapM (h.writePart held) (c :: opened) with
      | none => rfl
      | some r =>
        obtain ⟨outcome, stack⟩ := r
        cases outcome <;> rfl

variable {α β : Type}

theorem Printing.bind_ok {x : Printing α} {f : α → Printing β} {a : α} {stack stack' : List Container}
    (ran : x stack = some (.ok a, stack')) : (x >>= f) stack = f a stack' := by
  simp [bind, ExceptT.bind, ExceptT.mk, StateT.bind, ran, ExceptT.bindCont]

theorem Printing.bind_error {x : Printing α} {f : α → Printing β} {d : Container}
    {stack stack' : List Container} (ran : x stack = some (.error d, stack')) :
    (x >>= f) stack = some (.error d, stack') := by
  simp [bind, ExceptT.bind, ExceptT.mk, StateT.bind, ran, ExceptT.bindCont]
  rfl

/-- Items that leave the stack as it was are printed one after the other. -/
theorem Printing.mapM_ok {f : α → Printing β} {g : α → β} {items : List α} {stack : List Container}
    (each : ∀ a ∈ items, f a stack = some (.ok (g a), stack)) :
    items.mapM f stack = some (.ok (items.map g), stack) := by
  induction items with
  | nil => rfl
  | cons a items ih =>
    rw [List.mapM_cons, bind_ok (each a List.mem_cons_self),
      bind_ok (ih fun b mem => each b (List.mem_cons_of_mem a mem))]
    rfl

/-- The first item that breaks off is the last one that is printed. -/
theorem Printing.mapM_error {f : α → Printing β} {items : List α} {stack : List Container} {d : Container}
    (each : ∀ a ∈ items, (∃ b, f a stack = some (.ok b, stack)) ∨ ∃ stack', f a stack = some (.error d, stack'))
    (breaks : ∃ a ∈ items, ∃ stack', f a stack = some (.error d, stack')) :
    ∃ stack', items.mapM f stack = some (.error d, stack') := by
  induction items with
  | nil => simp at breaks
  | cons a items ih =>
    rw [List.mapM_cons]
    rcases each a List.mem_cons_self with ⟨b, ran⟩ | ⟨stack', ran⟩
    · have later : ∃ a ∈ items, ∃ stack', f a stack = some (.error d, stack') := by
        obtain ⟨a', mem, stack', broken⟩ := breaks
        rcases List.mem_cons.mp mem with rfl | mem
        · rw [ran] at broken
          cases broken
        · exact ⟨a', mem, stack', broken⟩
      obtain ⟨stack', ran'⟩ := ih (fun b mem => each b (List.mem_cons_of_mem a mem)) later
      rw [bind_ok ran, bind_error ran']
      exact ⟨stack', rfl⟩
    · rw [bind_error ran]
      exact ⟨stack', rfl⟩

/-- The printer comes to an end and leaves the stack as it was, unless it meets the container that is held. -/
theorem write_eq (enough : h.unopened opened < depth) (free : ∀ c, held = some c → ¬h.ReachesPast opened v c) :
    h.write held v opened = some (.ok (h.render depth opened v), opened) := by
  induction depth generalizing opened v with
  | zero => exact absurd enough (Nat.not_lt_zero _)
  | succ depth ih =>
    cases kind : v.container? with
    | none => rw [write_scalar kind, render_scalar kind]
    | some c =>
      obtain rfl := Value.eq_value kind
      rw [write_value, render_value]
      by_cases mem : c ∈ opened
      · rw [if_pos mem, if_pos mem]
      · have unheld : held ≠ some c := fun same => free c same (.here mem)
        have each : ∀ part ∈ h.parts c, h.writePart held part (c :: opened) =
            some (.ok (part.1 ++ part.2.inner (h.render depth (c :: opened) part.2)), c :: opened) := by
          intro part isPart
          have smaller := unopened_cons_lt isPart mem
          have deeper : ∀ d, held = some d → ¬h.ReachesPast (c :: opened) part.2 d := by
            intro d same reached
            exact free d same (ReachesPast.value_iff.mpr ⟨mem, .inr ⟨part, isPart, reached⟩⟩)
          rw [writePart, Printing.bind_ok (ih (by omega) deeper)]
          rfl
        rw [if_neg mem, if_neg mem, if_neg unheld, Printing.mapM_ok each]
        rfl

/-- The printer breaks off at the container that is held, if it can be reached. -/
theorem write_eq_error {target : Container} (enough : h.unopened opened < depth)
    (reached : h.ReachesPast opened v target) :
    ∃ stack, h.write (some target) v opened = some (.error target, stack) := by
  induction depth generalizing opened v with
  | zero => exact absurd enough (Nat.not_lt_zero _)
  | succ depth ih =>
    obtain ⟨c, kind, mem⟩ := reached.container
    obtain rfl := Value.eq_value kind
    rw [write_value, if_neg mem]
    by_cases same : target = c
    · rw [if_pos (congrArg some same), same]
      exact ⟨_, rfl⟩
    · obtain ⟨-, rfl | ⟨broken, isBroken, deeper⟩⟩ := ReachesPast.value_iff.mp reached
      · exact absurd rfl same
      · have breaks {part : String × Value} (isPart : part ∈ h.parts c)
            (reached : h.ReachesPast (c :: opened) part.2 target) :
            ∃ stack, h.writePart (some target) part (c :: opened) = some (.error target, stack) := by
          have smaller := unopened_cons_lt isPart mem
          obtain ⟨stack, ran⟩ := ih (by omega) reached
          exact ⟨stack, Printing.bind_error ran⟩
        have each : ∀ part ∈ h.parts c,
            (∃ text, h.writePart (some target) part (c :: opened) = some (.ok text, c :: opened)) ∨
              ∃ stack, h.writePart (some target) part (c :: opened) = some (.error target, stack) := by
          intro part isPart
          by_cases reaches : h.ReachesPast (c :: opened) part.2 target
          · exact .inr (breaks isPart reaches)
          · have smaller := unopened_cons_lt isPart mem
            have ran : h.write (some target) part.2 (c :: opened) =
                some (.ok (h.render depth (c :: opened) part.2), c :: opened) := by
              apply write_eq (by omega)
              intro d same reached
              exact reaches (Option.some.inj same ▸ reached)
            exact .inl ⟨_, Printing.bind_ok ran⟩
        obtain ⟨stack, ran⟩ := Printing.mapM_error each ⟨broken, isBroken, breaks isBroken deeper⟩
        rw [if_neg (fun eq => same (Option.some.inj eq)), ran]
        exact ⟨stack, rfl⟩

/-- Who holds a container does not matter to a printer that cannot reach it. -/
theorem write_of_unreached {target : Container} (unreached : ¬h.Reaches v target) :
    h.write (some target) v [] = some (.ok (h.display v), []) := by
  apply write_eq h.unopened_lt_room
  intro c same
  rw [← Option.some.inj same]
  exact unreached

theorem write_of_reached {target : Container} (reached : h.Reaches v target) :
    ∃ stack, h.write (some target) v [] = some (.error target, stack) :=
  write_eq_error h.unopened_lt_room reached

end Printer

/-! ### A printer without a stack -/

/-- Prints a value as if all that it holds were its own. -/
def naive (h : Heap) (v : Value) : Option String := do
  match v.container? with
  | none => some v.plain
  | some c =>
    let texts ← (h.parts c).mapM fun part => do
      let text ← h |>.naive part.2
      some (part.1 ++ part.2.inner text)
    some (c.enclose texts)
partial_fixpoint

/-- No container that a value reaches is reached again from what it holds. -/
def Acyclic (h : Heap) (v : Value) : Prop :=
  ∀ c, h.Reaches v c → ∀ part ∈ h.parts c, ¬h.Reaches part.2 c

theorem Acyclic.part {c : Container} (acyclic : h.Acyclic c.value) {part : String × Value} (mem : part ∈ h.parts c) :
    h.Acyclic part.2 :=
  fun d reached => acyclic d (reached.of_part mem)

theorem Acyclic.of_scalar (scalar : v.container? = none) : h.Acyclic v := by
  intro c reached
  obtain ⟨first, isFirst, -⟩ := reached.container
  rw [scalar] at isFirst
  cases isFirst

theorem Acyclic.of_parts {c : Container} (kind : v.container? = some c)
    (away : ∀ part ∈ h.parts c, ¬h.Reaches part.2 c) (each : ∀ part ∈ h.parts c, h.Acyclic part.2) : h.Acyclic v := by
  obtain rfl := Value.eq_value kind
  intro d reached
  obtain ⟨-, rfl | ⟨part, mem, deeper⟩⟩ := reached.of_value
  · exact away
  · exact each part mem d deeper

theorem naive_scalar (scalar : v.container? = none) : h.naive v = some v.plain := by
  rw [naive]
  simp only [scalar]

theorem naive_value {c : Container} {texts : String × Value → String}
    (each : ∀ part ∈ h.parts c, h.naive part.2 = some (texts part)) :
    h.naive c.value = some (c.enclose ((h.parts c).map fun part => part.1 ++ part.2.inner (texts part))) := by
  have gathered : ((h.parts c).mapM fun part => do
      let text ← h.naive part.2
      some (part.1 ++ part.2.inner text)) =
        some ((h.parts c).map fun part => part.1 ++ part.2.inner (texts part)) := by
    generalize h.parts c = parts at each
    induction parts with
    | nil => rfl
    | cons part parts ih =>
      rw [List.mapM_cons, each part List.mem_cons_self,
        ih fun other mem => each other (List.mem_cons_of_mem part mem)]
      rfl
  rw [naive]
  simp only [Container.container?_value]
  change (((h.parts c).mapM fun part : String × Value => do
      let text ← h.naive part.2
      some (part.1 ++ part.2.inner text)).bind fun texts => some (c.enclose texts)) = _
  rw [gathered]
  rfl

/-- Without cycles the stack makes no difference. -/
theorem naive_eq (enough : h.unopened opened < depth) (acyclic : h.Acyclic v)
    (away : ∀ c ∈ opened, ¬h.Reaches v c) : h.naive v = some (h.render depth opened v) := by
  induction depth generalizing opened v with
  | zero => exact absurd enough (Nat.not_lt_zero _)
  | succ depth ih =>
    cases kind : v.container? with
    | none => rw [naive_scalar kind, render_scalar kind]
    | some c =>
      obtain rfl := Value.eq_value kind
      have reached : h.Reaches c.value c := .here List.not_mem_nil
      have free : c ∉ opened := fun mem => away c mem reached
      rw [render_value, if_neg free]
      apply naive_value
      intro part mem
      have smaller := unopened_cons_lt mem free
      apply ih (by omega) (acyclic.part mem)
      intro d isOpen again
      rcases List.mem_cons.mp isOpen with rfl | isOpen
      · exact acyclic _ reached part mem again
      · exact away d isOpen (again.of_part mem)

/-- Printing any value comes to an end and is faithful. A printer that knows no bound ends with the text and with an
    empty stack. What it prints is the text of the one tree that shows the value with all that it holds, each
    container in short where it stands inside itself and in full everywhere else. Without cycles it is what a
    printer prints that does not look at identities at all. -/
theorem display_ends_and_is_faithful (h : Heap) (v : Value) :
    h.write none v [] = some (.ok (h.display v), []) ∧
    (∃ t : Shown, t.Depicts h [] v ∧ (∀ other : Shown, other.Depicts h [] v → other = t) ∧ h.display v = t.text) ∧
    (h.Acyclic v → h.naive v = some (h.display v)) := by
  have enough := h.unopened_lt_room
  refine ⟨?_, ⟨h.tree h.room [] v, depicts_tree enough, ?_, text_tree.symm⟩, ?_⟩
  · apply write_eq enough
    intro c held
    cases held
  · intro other depicts
    exact eq_tree enough depicts
  · intro acyclic
    apply naive_eq enough acyclic
    intro c mem
    cases mem

/-- A list that holds another twice, and a list and a map that hold each other and themselves. -/
def knotted : Heap where
  lists := #[#[.bool true], #[.list ⟨0⟩, .list ⟨0⟩], #[.list ⟨2⟩, .map ⟨0⟩]]
  maps := #[⟨[("me", .map ⟨0⟩), ("list", .list ⟨2⟩)]⟩]

/-- What is shared is printed in full each time, and what holds itself is cut short inside itself only. -/
theorem display_of_knotted :
    (knotted.Acyclic (.list ⟨1⟩) ∧ knotted.naive (.list ⟨1⟩) = some "[[true], [true]]") ∧
    knotted.write none (.list ⟨2⟩) [] = some (.ok "[[...], \x7bme: \x7b...\x7d, list: [...]\x7d]", []) ∧
    ∃ t : Shown, t.Depicts knotted [] (.list ⟨2⟩) ∧ t.text = "[[...], \x7bme: \x7b...\x7d, list: [...]\x7d]" := by
  have inner : knotted.Acyclic (.list ⟨0⟩) := by
    have only : knotted.parts (.list ⟨0⟩) = [("", .bool true)] := rfl
    apply Acyclic.of_parts rfl
    · rw [only]
      decide
    · rw [only]
      intro part mem
      rw [List.mem_singleton.mp mem]
      exact .of_scalar rfl
  have acyclic : knotted.Acyclic (.list ⟨1⟩) := by
    have both : knotted.parts (.list ⟨1⟩) = [("", .list ⟨0⟩), ("", .list ⟨0⟩)] := rfl
    apply Acyclic.of_parts rfl
    · rw [both]
      decide
    · rw [both]
      intro part mem
      have same : part = ("", .list ⟨0⟩) := by simpa using mem
      rw [same]
      exact inner
  obtain ⟨-, -, shared⟩ := display_ends_and_is_faithful knotted (.list ⟨1⟩)
  obtain ⟨ends, ⟨t, depicts, -, printed⟩, -⟩ := display_ends_and_is_faithful knotted (.list ⟨2⟩)
  have full : knotted.display (.list ⟨1⟩) = "[[true], [true]]" := by decide +kernel
  have cut : knotted.display (.list ⟨2⟩) = "[[...], \x7bme: \x7b...\x7d, list: [...]\x7d]" := by decide +kernel
  rw [full] at shared
  rw [cut] at ends printed
  exact ⟨⟨acyclic, shared acyclic⟩, ends, t, depicts, printed.symm⟩

end Heap

end Sketch
