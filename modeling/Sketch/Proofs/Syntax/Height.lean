import Sketch.Proofs.Syntax.Composition
import Sketch.Proofs.Syntax.RoundTrip

/-!
How high the trees of accepted programs are. The parser counts levels where it enters an operand or a statement; what
it joins in a loop costs no level, and makes the tree higher all the same.
-/

namespace Sketch

namespace Node

/-- The left operand, or what a field, method or index is taken of. -/
def leading : Node → List Node
  | .expr (.bin _ left _ _) => [.expr left]
  | .expr (.method object _ _ _) | .expr (.field object _ _) | .expr (.index object _ _) => [.expr object]
  | _ => []

/-- The other parts right below a node. -/
def others (n : Node) : List Node := n.children.drop n.leading.length

theorem children_eq (n : Node) : n.children = n.leading ++ n.others := by
  rcases n with e | s
  · cases e <;> rfl
  · rfl

theorem mem_children {n c : Node} : c ∈ n.children ↔ c ∈ n.leading ∨ c ∈ n.others := by
  rw [children_eq, List.mem_append]

/-- How many nodes there are on the longest way from a node down to a leaf. -/
def height (n : Node) : Nat := 1 + (n.children.attach.map fun c => height c.1).foldr max 0
termination_by n
decreasing_by exact c.2

/-- The same, where it costs nothing to go on to the leading part. -/
def nesting (n : Node) : Nat :=
  max ((n.leading.attach.map fun c => nesting c.1).foldr max 0)
    (1 + (n.others.attach.map fun c => nesting c.1).foldr max 0)
termination_by n
decreasing_by
  · exact mem_children.mpr (.inl c.2)
  · exact mem_children.mpr (.inr c.2)

/-- How many nodes there are from a node on along leading parts. -/
def spine (n : Node) : Nat := 1 + (n.leading.attach.map fun c => spine c.1).foldr max 0
termination_by n
decreasing_by exact mem_children.mpr (.inl c.2)

variable {bound longest : Nat}

theorem foldr_max_attach_le {nodes : List Node} {measure : Node → Nat} :
    (nodes.attach.map fun c => measure c.1).foldr max 0 ≤ bound ↔ ∀ c ∈ nodes, measure c ≤ bound := by
  rw [List.attach_map_val]
  induction nodes with
  | nil => exact iff_of_true (Nat.zero_le bound) (List.forall_mem_nil _)
  | cons first rest ih =>
    rw [List.map_cons, List.foldr_cons, Nat.max_le, ih, List.forall_mem_cons]

theorem height_le {n : Node} : n.height ≤ bound + 1 ↔ ∀ c ∈ n.children, c.height ≤ bound := by
  rw [height, Nat.add_comm, Nat.add_le_add_iff_right, foldr_max_attach_le]

theorem nesting_le {n : Node} : n.nesting ≤ bound + 1 ↔
    (∀ c ∈ n.leading, c.nesting ≤ bound + 1) ∧ ∀ c ∈ n.others, c.nesting ≤ bound := by
  rw [nesting, Nat.max_le, Nat.add_comm 1, Nat.add_le_add_iff_right, foldr_max_attach_le, foldr_max_attach_le]

theorem height_pos (n : Node) : 0 < n.height := by
  rw [height]
  omega

theorem height_lt_of_mem_children {n c : Node} (below : c ∈ n.children) : c.height < n.height := by
  obtain ⟨bound, same⟩ := Nat.exists_eq_succ_of_ne_zero (Nat.ne_of_gt n.height_pos)
  rw [same]
  exact Nat.lt_succ_of_le (height_le.mp (Nat.le_of_eq same) c below)

theorem spine_le {n : Node} : n.spine ≤ bound + 1 ↔ ∀ c ∈ n.leading, c.spine ≤ bound := by
  rw [spine, Nat.add_comm, Nat.add_le_add_iff_right, foldr_max_attach_le]

theorem nesting_pos (n : Node) : 0 < n.nesting := by
  rw [nesting]
  omega

theorem spine_pos (n : Node) : 0 < n.spine := by
  rw [spine]
  omega

theorem self_mem_all (n : Node) : n ∈ n.all := by
  rw [all_eq]
  exact List.mem_cons_self

theorem mem_all_of_child {n c m : Node} (below : c ∈ n.children) (inside : m ∈ c.all) : m ∈ n.all := by
  rw [all_eq]
  exact List.mem_cons_of_mem n (List.mem_flatMap.mpr ⟨c, below, inside⟩)

theorem nesting_le_of_mem_children {n c : Node} (below : c ∈ n.children) : c.nesting ≤ n.nesting := by
  obtain ⟨bound, same⟩ := Nat.exists_eq_succ_of_ne_zero (Nat.ne_of_gt n.nesting_pos)
  obtain ⟨ofLeading, ofOthers⟩ := nesting_le.mp (Nat.le_of_eq same)
  rw [same]
  rcases mem_children.mp below with leads | other
  · exact ofLeading c leads
  · exact Nat.le_succ_of_le (ofOthers c other)

/-- A measure that no part of a node exceeds is exceeded nowhere inside it. -/
theorem le_of_mem_all {measure : Node → Nat} (shrinks : ∀ {n c : Node}, c ∈ n.children → measure c ≤ measure n)
    {n m : Node} (inside : m ∈ n.all) : measure m ≤ measure n := by
  induction n using inductionOn with
  | above n ih =>
    rw [all_eq] at inside
    rcases List.mem_cons.mp inside with rfl | inside
    · exact Nat.le_refl _
    · obtain ⟨c, below, inside⟩ := List.mem_flatMap.mp inside
      exact Nat.le_trans (ih c below inside) (shrinks below)

theorem height_le_of_mem_all {n m : Node} (inside : m ∈ n.all) : m.height ≤ n.height :=
  le_of_mem_all (fun below => Nat.le_of_lt (height_lt_of_mem_children below)) inside

theorem nesting_le_of_mem_all {n m : Node} (inside : m ∈ n.all) : m.nesting ≤ n.nesting :=
  le_of_mem_all nesting_le_of_mem_children inside

theorem spine_le_height (n : Node) : n.spine ≤ n.height := by
  induction n using inductionOn with
  | above n ih =>
    obtain ⟨bound, same⟩ := Nat.exists_eq_succ_of_ne_zero (Nat.ne_of_gt n.height_pos)
    rw [same, spine_le]
    intro c leads
    have below := mem_children.mpr (.inl leads)
    exact Nat.le_trans (ih c below) (height_le.mp (Nat.le_of_eq same) c below)

/-- A way down goes through as many chains of leading parts as the nesting says. -/
theorem height_add_le {n : Node} (bounded : ∀ m ∈ n.all, m.spine ≤ longest) :
    n.height + longest ≤ n.spine + longest * n.nesting := by
  induction n using inductionOn with
  | above n ih =>
    obtain ⟨deep, sameNesting⟩ := Nat.exists_eq_succ_of_ne_zero (Nat.ne_of_gt n.nesting_pos)
    obtain ⟨far, sameSpine⟩ := Nat.exists_eq_succ_of_ne_zero (Nat.ne_of_gt n.spine_pos)
    obtain ⟨ofLeading, ofOthers⟩ := nesting_le.mp (Nat.le_of_eq sameNesting)
    have bound : n.height ≤ far + longest * deep + 1 := by
      refine height_le.mpr fun c below => ?_
      have fromChild := ih c below fun m inside => bounded m (mem_all_of_child below inside)
      rcases mem_children.mp below with leads | other
      · -- Along the chain the nesting may stay as it is, but the rest of the chain is shorter.
        have shorter := spine_le.mp (Nat.le_of_eq sameSpine) c leads
        have scaled := Nat.mul_le_mul_left longest (ofLeading c leads)
        rw [Nat.mul_succ] at scaled
        omega
      · -- Off the chain a new chain starts, and the nesting shrinks.
        have chain := bounded c (mem_all_of_child below c.self_mem_all)
        have scaled := Nat.mul_le_mul_left longest (ofOthers c other)
        omega
    rw [sameSpine, sameNesting, Nat.mul_succ]
    omega

theorem height_le_mul_nesting {n : Node} (bounded : ∀ m ∈ n.all, m.spine ≤ longest) :
    n.height ≤ longest * n.nesting := by
  have whole := height_add_le bounded
  have chain := bounded n n.self_mem_all
  omega

end Node

/-! ### The nesting of what the parser accepts -/

section Accepted

variable {s : TokenStream} {rule : Bracket → Nat → Prop} {levels tier i j : Nat} {e : Expr}

/-- Each tier may add a level to the seven that one of the parser is worth. -/
theorem Derives.nesting_le (derives : Derives s rule levels tier e i j) :
    (Node.expr e).nesting + min tier 6 ≤ 7 * levels := by
  induction derives with
  | @atom levels i kind e found spelt =>
    have leaf : (Node.expr e).children = [] := by
      cases kind with
      | number | bool | string | ident => cases spelt; rfl
      | punct => cases spelt
      | keyword word =>
        cases word
        case nilKw => cases spelt; rfl
        all_goals cases spelt
    have bound : (Node.expr e).nesting ≤ 0 + 1 := by
      rw [Node.children_eq, List.append_eq_nil_iff] at leaf
      rw [Node.nesting_le, leaf.1, leaf.2]
      exact ⟨List.forall_mem_nil _, List.forall_mem_nil _⟩
    omega
  | paren opens inner closes fromInner => omega
  | @list levels i j items parts opens listed complete each closes fromEach =>
    have bound : (Node.expr (.list items (s.cursor i).pos)).nesting ≤ 7 * levels + 1 :=
      Node.nesting_le.mpr ⟨List.forall_mem_nil _, List.forall_mem_map.mpr (forall_of_forall_zip complete fromEach)⟩
    omega
  | @map levels i j entries parts opens listed complete keys each closes fromEach =>
    have bound : (Node.expr (.map entries (s.cursor i).pos)).nesting ≤ 7 * levels + 1 := by
      refine Node.nesting_le.mpr ⟨List.forall_mem_nil _, List.forall_mem_map.mpr (List.forall_mem_map.mpr ?_)⟩
      exact forall_of_forall_zip complete fromEach
    omega
  | @call levels i j name args parts named opens allowed listed complete each closes fromEach =>
    have bound : (Node.expr (.call name args (s.cursor i).pos)).nesting ≤ 7 * levels + 1 :=
      Node.nesting_le.mpr ⟨List.forall_mem_nil _, List.forall_mem_map.mpr (forall_of_forall_zip complete fromEach)⟩
    omega
  | @field levels i j object name receiver dot named fromReceiver =>
    have bound : (Node.expr (.field object name object.pos)).nesting ≤ 7 * levels + 1 :=
      Node.nesting_le.mpr ⟨List.forall_mem_singleton.mpr (by omega), List.forall_mem_nil _⟩
    omega
  | @method levels i j k object name args parts receiver dot named opens allowed listed complete each closes
      fromReceiver fromEach =>
      have bound : (Node.expr (.method object name args object.pos)).nesting ≤ 7 * levels + 1 := by
        refine Node.nesting_le.mpr ⟨List.forall_mem_singleton.mpr (by omega), List.forall_mem_map.mpr ?_⟩
        exact forall_of_forall_zip complete fromEach
      omega
  | @index levels i j k object key receiver opens allowed inner closes fromReceiver fromInner =>
    have bound : (Node.expr (.index object key (s.cursor j).pos)).nesting ≤ 7 * levels + 1 :=
      Node.nesting_le.mpr ⟨List.forall_mem_singleton.mpr (by omega), List.forall_mem_singleton.mpr (by omega)⟩
    omega
  | @un levels i j op e signs operand fromOperand =>
    have bound : (Node.expr (.un op e (s.cursor i).pos)).nesting ≤ 7 * levels + 1 :=
      Node.nesting_le.mpr ⟨List.forall_mem_nil _, List.forall_mem_singleton.mpr (by omega)⟩
    omega
  | tighter below inner fromInner => omega
  | @bin levels i j k op left right first joins second fromFirst fromSecond =>
    have tight := op.tier_lt
    obtain ⟨bound, same⟩ := Nat.exists_eq_succ_of_ne_zero
      (Nat.ne_of_gt (Nat.lt_of_lt_of_le (Node.expr left).nesting_pos (Nat.le_sub_of_add_le fromFirst)))
    have joined : (Node.expr (.bin op left right (s.cursor j).pos)).nesting ≤ bound + 1 :=
      Node.nesting_le.mpr ⟨List.forall_mem_singleton.mpr (by omega), List.forall_mem_singleton.mpr (by omega)⟩
    omega

theorem children_of_target? {target : Target} (named : Parser.target? e = some target) :
    (Node.expr e).children = target.parts.map .expr := by
  cases e with
  | ident | index | field =>
    cases named
    rfl
  | num | bool | str | nil | bin | un | call | method | list | map => cases named

variable {bound : Nat} {t : Stmt}

theorem stmt_nesting_le (each : ∀ c ∈ (Node.stmt t).children, c.nesting ≤ bound) : (Node.stmt t).nesting ≤ bound + 1 :=
  Node.nesting_le.mpr ⟨List.forall_mem_nil _, each⟩

theorem Stmt.Plain.nesting_le (plain : t.Plain fun e => (Node.expr e).nesting ≤ bound) :
    (Node.stmt t).nesting ≤ bound + 1 := by
  refine stmt_nesting_le ?_
  cases t with
  | eval e => exact List.forall_mem_singleton.mpr plain
  | assign target op value pos =>
    obtain ⟨⟨e, named, ofTarget⟩, ofValue⟩ := plain
    rw [Node.children, List.map_append, ← children_of_target? named, List.forall_mem_append]
    refine ⟨fun c below => ?_, List.forall_mem_singleton.mpr ofValue⟩
    exact Nat.le_trans (Node.nesting_le_of_mem_children below) ofTarget
  | declare | branch | count | clauses | whileDo | ret => exact plain.elim

/-- The last clause of a loop costs no level, so it adds one of its own. -/
theorem Stmt.Own.nesting_le (own : t.Own fun e => (Node.expr e).nesting ≤ bound)
    (inner : ∀ u ∈ t.deeper, (Node.stmt u).nesting ≤ bound) : (Node.stmt t).nesting ≤ bound + 2 := by
  have part {e : Expr} (small : (Node.expr e).nesting ≤ bound) : (Node.expr e).nesting ≤ bound + 1 :=
    Nat.le_succ_of_le small
  have parts {optional : Option Expr} (small : ∀ e ∈ optional, (Node.expr e).nesting ≤ bound) :
      ∀ c ∈ optional.toList.map Node.expr, c.nesting ≤ bound + 1 :=
    List.forall_mem_map.mpr fun e mem => part (small e (Option.mem_toList.mp mem))
  have block {body : List Stmt} (small : ∀ u ∈ body, (Node.stmt u).nesting ≤ bound) :
      ∀ c ∈ body.map Node.stmt, c.nesting ≤ bound + 1 :=
    List.forall_mem_map.mpr fun u mem => Nat.le_succ_of_le (small u mem)
  cases t with
  | eval e => exact stmt_nesting_le (List.forall_mem_singleton.mpr (part own))
  | assign target op value pos => exact Nat.le_succ_of_le (Stmt.Plain.nesting_le own)
  | declare name init pos => exact stmt_nesting_le (parts own)
  | ret value pos => exact stmt_nesting_le (parts own)
  | whileDo test body pos => exact stmt_nesting_le (List.forall_mem_cons.mpr ⟨part own, block inner⟩)
  | count var start stop step body pos =>
    obtain ⟨ofStart, ofStop, ofStep⟩ := own
    refine stmt_nesting_le (List.forall_mem_append.mpr ⟨?_, block inner⟩)
    exact List.forall_mem_cons.mpr ⟨part ofStart, List.forall_mem_cons.mpr ⟨part ofStop, parts ofStep⟩⟩
  | clauses init test step body pos =>
    obtain ⟨ofTest, ofStep⟩ := own
    obtain ⟨ofInit, ofBody⟩ := List.forall_mem_append.mp inner
    refine stmt_nesting_le ?_
    rw [Node.children, List.map_append]
    refine List.forall_mem_append.mpr ⟨List.forall_mem_append.mpr ⟨block ofInit, parts ofTest⟩, ?_⟩
    refine List.forall_mem_append.mpr ⟨List.forall_mem_map.mpr fun u mem => ?_, block ofBody⟩
    exact (ofStep u (Option.mem_toList.mp mem)).nesting_le
  | branch branches otherwise pos =>
    obtain ⟨ofBodies, ofOtherwise⟩ := List.forall_mem_append.mp inner
    refine stmt_nesting_le (List.forall_mem_append.mpr ⟨fun c below => ?_, block ofOtherwise⟩)
    obtain ⟨branch, mem, below⟩ := List.mem_flatMap.mp below
    have ofBody : ∀ u ∈ branch.2, (Node.stmt u).nesting ≤ bound := fun u inBody =>
      ofBodies u (List.mem_flatMap.mpr ⟨branch, mem, inBody⟩)
    rcases List.mem_cons.mp below with rfl | below
    · exact part (own branch mem)
    · exact block ofBody c below

theorem Stmt.Built.nesting_le (built : t.Built (fun levels e => (Node.expr e).nesting ≤ 7 * levels) levels) :
    (Node.stmt t).nesting + 5 ≤ 7 * levels := by
  induction built with
  | @of levels t own inner fromInner =>
    have small := own.nesting_le fun u mem => by
      have deeper := fromInner u mem
      omega
    omega

/-- No node of an accepted program nests deeper than seven times what the parser counts. -/
theorem nesting_le_of_parse {p : Program} (accepted : Parser.parse s = .ok p) {n : Node} (mem : n ∈ p.nodes) :
    n.nesting ≤ 7 * maxNesting := by
  have exprs (levels i : Nat) : Takes s (Parser.expression levels) i fun e _ => (Node.expr e).nesting ≤ 7 * levels :=
    (expression_takes levels i).mono fun e j derives => derives.nesting_le
  obtain ⟨t, inBody, inside⟩ := List.mem_flatMap.mp mem
  obtain ⟨item, inItems, inBody⟩ := List.mem_flatMap.mp inBody
  have built := (parse_built exprs accepted item inItems t inBody).nesting_le
  have below := Node.nesting_le_of_mem_all inside
  omega

end Accepted

/-! ### Chains -/

/-- Ones added up from the left, with as many signs as the number says. -/
def sum : Nat → Expr
  | 0 => .num 1 default
  | n + 1 => .bin .add (sum n) (.num 1 default) default

theorem le_tier_sum (n : Nat) : 4 ≤ (sum n).tier := by
  cases n with
  | zero => decide
  | succ n => exact Nat.le_refl 4

theorem depth_sum (n : Nat) : (sum n).depth = 1 := by
  induction n with
  | zero => rfl
  | succ n ih =>
    have bare : decide ((sum n).tier < BinOp.tier .add) = false := decide_eq_false (Nat.not_lt_of_le (le_tier_sum n))
    rw [sum, Expr.depth, ih, bare]
    rfl

theorem lt_height_of_bare_eq_sum {n : Nat} {e : Expr} (same : e.bare = (sum n).bare) : n < (Node.expr e).height := by
  induction n generalizing e with
  | zero => exact Node.height_pos _
  | succ n ih =>
    cases e with
    | bin op left right pos =>
      have deeper := ih (Expr.bin.inj same).2.1
      have below : Node.expr left ∈ (Node.expr (.bin op left right pos)).children := List.mem_cons_self
      exact Nat.lt_of_le_of_lt deeper (Node.height_lt_of_mem_children below)
    | num | bool | str | nil | ident | un | call | method | field | index | list | map => cases same

/-- The tokens of such a sum, as a program. -/
def sumTokens (n : Nat) : TokenStream :=
  ⟨(printItems [.stmt (.eval (sum n))] fun _ => .keywords).map (⟨·, default⟩), default⟩

/-- A sum is accepted however long it is. -/
theorem parse_sumTokens (n : Nat) :
    ∃ e, Parser.parse (sumTokens n) = .ok ⟨[.stmt (.eval e)]⟩ ∧ e.bare = (sum n).bare := by
  have printable : ∀ i ∈ [Item.stmt (.eval (sum n))], i.isPrintable := List.forall_mem_singleton.mpr rfl
  have shallow : ∀ i ∈ [Item.stmt (.eval (sum n))], i.depth ≤ maxNesting := by
    refine List.forall_mem_singleton.mpr ?_
    rw [Item.depth, Stmt.depth, depth_sum]
    decide
  have ahead : Parser.Ahead 0 (printItems [.stmt (.eval (sum n))] fun _ => .keywords) (.ofStream (sumTokens n)) := by
    refine ⟨?_, List.forall_mem_map.mpr fun _ _ => rfl⟩
    rw [Parser.Cursor.ofStream, sumTokens, List.map_map]
    exact List.map_id _
  obtain ⟨items, read, same⟩ := Parser.rounds_recovers printable shallow (fun _ => .keywords) (sumTokens n).tokens
    (.ofStream (sumTokens n)) (Nat.le_of_eq ahead.length_eq.symm) ahead
  have accepted : Parser.parse (sumTokens n) = .ok ⟨items⟩ := by
    rw [Parser.parse, read]
    rfl
  rcases items with _ | ⟨item, rest⟩
  · cases same
  obtain ⟨first, last⟩ := List.cons.inj same
  obtain rfl := List.map_eq_nil_iff.mp last
  cases item with
  | function f => cases first
  | stmt t =>
    cases t with
    | eval e => exact ⟨e, accepted, Stmt.eval.inj (Item.stmt.inj first)⟩
    | declare | assign | branch | count | clauses | whileDo | ret => cases first

/-- The height of what the parser accepts is bounded exactly as far as the chains in it are: no chain is longer than the
    tree is high, and a way down the tree is no longer than `7 * maxNesting` times the longest chain. -/
theorem height_bounded_only_along_chains {s : TokenStream} {p : Program} (accepted : Parser.parse s = .ok p) {n : Node}
    (mem : n ∈ p.nodes) (longest : Nat) :
    (n.height ≤ longest → ∀ m ∈ n.all, m.spine ≤ longest) ∧
      ((∀ m ∈ n.all, m.spine ≤ longest) → n.height ≤ 7 * maxNesting * longest) := by
  constructor
  · intro low m inside
    exact Nat.le_trans m.spine_le_height (Nat.le_trans (Node.height_le_of_mem_all inside) low)
  · intro bounded
    calc n.height ≤ longest * n.nesting := Node.height_le_mul_nesting bounded
      _ ≤ longest * (7 * maxNesting) := Nat.mul_le_mul_left longest (nesting_le_of_parse accepted mem)
      _ = 7 * maxNesting * longest := Nat.mul_comm ..

theorem height_of_three_ones :
    Parser.parse (sumTokens 2) = .ok ⟨[.stmt (.eval (sum 2))]⟩ ∧ (∀ m ∈ (Node.stmt (.eval (sum 2))).all, m.spine ≤ 3) ∧
      (Node.stmt (.eval (sum 2))).height ≤ 7 * maxNesting * 3 := by
  have accepted : Parser.parse (sumTokens 2) = .ok ⟨[.stmt (.eval (sum 2))]⟩ := rfl
  have bounded : ∀ m ∈ (Node.stmt (.eval (sum 2))).all, m.spine ≤ 3 := by
    simp [Node.all_eq, Node.children, sum, Node.spine_le, Node.leading]
  refine ⟨accepted, bounded, (height_bounded_only_along_chains accepted ?_ 3).2 bounded⟩
  exact List.mem_flatMap.mpr ⟨_, List.mem_singleton_self _, Node.self_mem_all _⟩

/-- Chains can be of any length, so there is no bound for all accepted programs. -/
theorem height_has_no_bound :
    ¬ ∃ bound, ∀ s p, Parser.parse s = .ok p → ∀ n ∈ p.nodes, n.height ≤ bound := by
  rintro ⟨bound, bounded⟩
  obtain ⟨e, accepted, same⟩ := parse_sumTokens bound
  have below : Node.expr e ∈ (Node.stmt (.eval e)).all :=
    Node.mem_all_of_child (List.mem_singleton_self _) (Node.expr e).self_mem_all
  have low := bounded _ _ accepted (.expr e) (List.mem_flatMap.mpr ⟨.eval e, List.mem_singleton_self _, below⟩)
  exact Nat.not_lt_of_le low (lt_height_of_bare_eq_sum same)

end Sketch
