import Mathlib.Data.Finset.Card
import ViewSchema.Proofs.Shape.Growth

/-!
What is seen of a node depends on the nodes below it alone. A node is seen whole when nothing below
it goes round, as no way down is then longer than the number of nodes. Two nodes stand apart when
nothing is below both; an operation on anything below one of them then leaves the other as it was,
and the two stay apart as long as no operation puts something of the one below the other.
-/

namespace ViewSchema.Store

/-- What is seen of a node depends on how it looks and on what is seen of its children. -/
theorem shapeWithin_succ_congr {s t : Store} {m n : Nat} {r : Ref}
    (hlook : (t.cell r).look = (s.cell r).look)
    (hchildren : ∀ child ∈ s.children r, t.shapeWithin m child = s.shapeWithin n child) :
    t.shapeWithin (m + 1) r = s.shapeWithin (n + 1) r := by
  obtain ⟨hfacts, hform⟩ := Prod.mk.inj hlook
  have hmap : (s.children r).map (t.shapeWithin m) = (s.children r).map (s.shapeWithin n) :=
    List.map_congr_left hchildren
  rw [children] at hmap
  rw [shapeWithin, shapeWithin, hfacts, hform]
  cases hcase : (s.cell r).form with
  | simple => rfl
  | bare => rfl
  | object members =>
    rw [hcase, Form.children] at hmap
    simp only [hmap]
  | array isRoot items =>
    rw [hcase, Form.children] at hmap
    simp only [hmap]
  | reference template bindings nodes =>
    rw [hcase, Form.children] at hmap
    simp only [hmap]

theorem shapeWithin_congr {s t : Store} {P : Ref → Prop}
    (hlook : ∀ q, P q → (t.cell q).look = (s.cell q).look)
    (hclosed : ∀ q, P q → ∀ child ∈ s.children q, P child) (steps : Nat) {r : Ref} (hr : P r) :
    t.shapeWithin steps r = s.shapeWithin steps r := by
  induction steps generalizing r with
  | zero => rfl
  | succ steps ih =>
    exact shapeWithin_succ_congr (hlook r hr) fun child hchild => ih (hclosed r hr child hchild)

theorem children_eq_of_look {s t : Store} {r : Ref} (h : (t.cell r).look = (s.cell r).look) :
    t.children r = s.children r :=
  congrArg (Form.children ∘ Prod.snd) h

theorem Below.child {s : Store} {r q child : Ref} (h : s.Below r q)
    (hchild : child ∈ s.children q) : s.Below r child := .tail h hchild

/-- What holds of a node and of every child of a node that it holds of, holds below the node. -/
theorem Below.closed {s : Store} {P : Ref → Prop}
    (hclosed : ∀ q, P q → ∀ child ∈ s.children q, P child) {r q : Ref} (hr : P r)
    (h : s.Below r q) : P q := by
  induction h with
  | refl => exact hr
  | tail _ hchild ih => exact hclosed _ ih _ hchild

theorem Consistent.lt_of_below {s : Store} (h : s.Consistent) {r q : Ref} (hr : r < s.cells.length)
    (hbelow : s.Below r q) : q < s.cells.length :=
  hbelow.closed (fun q _ => (h q).known) hr

/-! Nodes that are seen whole. -/

/-- No way down from the node goes on for ever. -/
def FiniteBelow (s : Store) : Ref → Prop := Acc fun child parent => child ∈ s.children parent

/-- No way down from the node has more than a number of nodes. -/
def Shallow (s : Store) : Nat → Ref → Prop
  | 0, _ => False
  | steps + 1, r => ∀ child ∈ s.children r, s.Shallow steps child

/-- Nodes that were made before what they stand below go round nowhere. -/
theorem finiteBelow_of_children_lt {s : Store}
    (h : ∀ q < s.cells.length, ∀ child ∈ s.children q, child < q) (r : Ref) : s.FiniteBelow r := by
  induction r using Nat.strong_induction_on with
  | h r ih =>
    refine .intro r fun child hchild => ih child ?_
    rcases Nat.lt_or_ge r s.cells.length with hr | hr
    · exact h r hr child hchild
    · have hnone : s.cell r = {} := by simp [cell, List.getElem?_eq_none hr]
      rw [children, hnone] at hchild
      cases hchild

theorem FiniteBelow.not_below_child {s : Store} {r : Ref} (h : s.FiniteBelow r) {child : Ref}
    (hchild : child ∈ s.children r) : ¬s.Below child r := by
  induction h generalizing child with
  | intro r _ ih =>
    intro hround
    rcases Relation.ReflTransGen.cases_head hround with rfl | ⟨next, hnext, hbelow⟩
    · exact ih child hchild hchild .refl
    · exact ih child hchild hnext (hbelow.tail hchild)

/-- A way down passes each node once, so what is known to hold all of them bounds its length. -/
theorem FiniteBelow.shallow {s : Store} {r : Ref} (h : s.FiniteBelow r) {known : Finset Ref}
    (hknown : ∀ q, s.Below r q → q ∈ known) : s.Shallow known.card r := by
  induction h generalizing known with
  | intro r hchildren ih =>
    rw [← Finset.card_erase_add_one (hknown r .refl)]
    intro child hchild
    refine ih child hchild fun q hq => Finset.mem_erase.mpr ⟨?_, hknown q (.head hchild hq)⟩
    rintro rfl
    exact FiniteBelow.not_below_child (.intro q hchildren) hchild hq

theorem Shallow.shapeWithin_eq {s : Store} {m n : Nat} {r : Ref} (h : s.Shallow n r) (hmn : n ≤ m) :
    s.shapeWithin m r = s.shapeWithin n r := by
  induction n generalizing m r with
  | zero => exact h.elim
  | succ n ih =>
    obtain ⟨m, rfl⟩ := Nat.exists_eq_add_of_lt hmn
    exact shapeWithin_succ_congr rfl fun child hchild => ih (h child hchild) (by omega)

section Whole

variable {s t : Store} {r : Ref}

theorem Consistent.shallow (h : s.Consistent) (hr : r < s.cells.length)
    (hfinite : s.FiniteBelow r) : s.Shallow s.cells.length r := by
  have hrange : s.Shallow (Finset.range s.cells.length).card r :=
    hfinite.shallow fun q hq => Finset.mem_range.mpr (h.lt_of_below hr hq)
  rwa [Finset.card_range] at hrange

/-- A finite node keeps its shape in a larger store when everything below it looks as before. -/
theorem Consistent.shape_eq (h : s.Consistent) (hr : r < s.cells.length)
    (hfinite : s.FiniteBelow r) (hlength : s.cells.length ≤ t.cells.length)
    (hlook : ∀ q, s.Below r q → (t.cell q).look = (s.cell q).look) : t.shape r = s.shape r := by
  have hshallow : s.Shallow s.cells.length r := h.shallow hr hfinite
  calc t.shape r
      = s.shapeWithin (t.cells.length + 1) r :=
        shapeWithin_congr hlook (fun _ hq _ hchild => hq.child hchild) _ .refl
    _ = s.shapeWithin s.cells.length r := hshallow.shapeWithin_eq (Nat.le_succ_of_le hlength)
    _ = s.shape r := (hshallow.shapeWithin_eq (Nat.le_succ _)).symm

end Whole

/-! Nodes that stand apart. -/

/-- Nothing is below both nodes. -/
def Apart (s : Store) (a b : Ref) : Prop := ∀ q, s.Below a q → ¬s.Below b q

section Apart

variable {s t : Store} {a b q : Ref} {nodes : List Ref}

theorem Apart.symm (h : s.Apart a b) : s.Apart b a := fun q hb ha => h q ha hb

theorem Apart.of_below (h : s.Apart a b) (hq : s.Below a q) : s.Apart q b :=
  fun p hp => h p (hq.trans hp)

namespace Operation

theorem look_of_apart (h : s.Operation q nodes t) (hq : s.Apart q b) {p : Ref} (hp : s.Below b p) :
    (t.cell p).look = (s.cell p).look := by
  rcases h.cell_cases p with hkept | ⟨hbelow, -⟩ | ⟨rfl, -⟩
  · exact hkept
  · exact absurd hp (hq p hbelow)
  · exact absurd hp (hq p .refl)

/-- An operation on a node that stands apart from another one leaves that one as it was. -/
theorem shape_of_apart (h : s.Operation q nodes t) (hq : s.Apart q b) : t.shape b = s.shape b := by
  rw [shape, shape, h.length_eq]
  exact shapeWithin_congr (fun _ hp => h.look_of_apart hq hp)
    (fun _ hp _ hchild => hp.child hchild) _ .refl

/-- What stands apart from a node still does when the operation is on such nodes only. -/
theorem apart (h : s.Operation q nodes t) (hq : s.Apart q b)
    (hnodes : ∀ node ∈ nodes, s.Apart node b) (ha : s.Apart a b) : t.Apart a b := by
  have hbelow : ∀ p, t.Below b p → s.Below b p := fun p hp =>
    hp.closed (fun p hp child hchild =>
      hp.child (children_eq_of_look (h.look_of_apart hq hp) ▸ hchild)) .refl
  have hapart : ∀ p, t.Below a p → s.Apart p b := fun p hp => by
    refine hp.closed (P := (s.Apart · b)) (fun p hp child hchild => ?_) ha
    rcases h.children_subset p child hchild with hold | ⟨-, hput⟩
    · exact hp.of_below (.single hold)
    · exact hnodes child hput
  exact fun p hp hpb => hapart p hp p .refl (hbelow p hpb)

end Operation

theorem children_make {c : Cell} (hnew : c.form.children = []) :
    (s.make c).2.children = s.children := by
  funext p
  rw [children, cell_make]
  split
  · rename_i hp
    have hnone : s.cell p = {} := by simp [cell, hp]
    rw [hnew, children, hnone, Form.children]
  · rfl

/-- Nodes are made, and each operation is on nodes that stand apart from the first node, or on
nodes that stand apart from the second. -/
inductive Aside (a b : Ref) (s : Store) : Store → Prop where
  | make {c : Cell} (hfresh : Fresh c) : Aside a b s (s.make c).2
  | operation {other q : Ref} {nodes : List Ref} {t : Store} (hother : other = a ∨ other = b)
      (hop : s.Operation q nodes t) (hq : s.Apart q other)
      (hnodes : ∀ node ∈ nodes, s.Apart node other) : Aside a b s t

theorem Aside.apart (h : s.Aside a b t) (hab : s.Apart a b) : t.Apart a b := by
  cases h with
  | make hfresh =>
    rw [Apart, Below, children_make hfresh.childless]
    exact hab
  | operation hother hop hq hnodes =>
    rcases hother with rfl | rfl
    · exact (hop.apart hq hnodes hab.symm).symm
    · exact hop.apart hq hnodes hab

theorem Apart.of_asides (hab : s.Apart a b) (h : Relation.ReflTransGen (Aside a b) s t) :
    t.Apart a b := by
  induction h with
  | refl => exact hab
  | tail _ hstep ih => exact hstep.apart ih

end Apart
end ViewSchema.Store
