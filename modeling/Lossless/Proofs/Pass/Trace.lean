import Lossless.Proofs.Node.Operations
import Lossless.Proofs.Node.Positions
import Lossless.Proofs.Pass.Eager

/-!
# Pass — what a pass does, call by call

A pass over a sound tree goes through its positions and calls the transform at each of them.  The
calls are told by a *trace*: for every call the position it is for, the node that stands there, what
the children of that node became, and the call itself (`Entry`).

`Visits` says what a pass can do, one rule for a node whose children are done and one for a pass that
stopped below it; every run is of that form (`eager_visits`).  What holds of all passes is proved by
induction on it.

A transform can be made to remember its calls (`Transform.logged`).  That does not change what a pass
does (`logged_extends`, `below_part`), and what it remembers is the trace (`Visits.log`).
-/

namespace Lossless

namespace Node

@[simp] theorem same_self (n : Node) : n.same n = true := by simp [same]

theorem same_comm (a b : Node) : a.same b = b.same a := BEq.comm

/-- Whether two lists have the same objects. -/
def sameAll : List Node → List Node → Bool
  | [], [] => true
  | a :: as, b :: bs => a.same b && sameAll as bs
  | _, _ => false

@[simp] theorem sameAll_self (ns : List Node) : sameAll ns ns = true := by
  induction ns with
  | nil => rfl
  | cons n ns ih => simp [sameAll, ih]

theorem sameAll_getElem? {as bs : List Node} (h : sameAll as bs = true) {j : Nat} {b : Node}
    (hb : bs[j]? = some b) : ∃ a, as[j]? = some a ∧ a.same b = true := by
  induction as generalizing bs j with
  | nil =>
      cases bs with
      | nil => cases hb
      | cons b bs => cases h
  | cons a as ih =>
      cases bs with
      | nil => cases h
      | cons b' bs =>
          rw [sameAll, Bool.and_eq_true] at h
          cases j with
          | zero =>
              cases hb
              exact ⟨a, rfl, h.1⟩
          | succ j => exact ih h.2 hb

theorem length_eq_of_sameAll {as bs : List Node} (h : sameAll as bs = true) :
    as.length = bs.length := by
  induction as generalizing bs with
  | nil =>
      cases bs with
      | nil => rfl
      | cons b bs => cases h
  | cons a as ih =>
      cases bs with
      | nil => cases h
      | cons b bs =>
          rw [sameAll, Bool.and_eq_true] at h
          exact congrArg (· + 1) (ih h.2)

end Node

/-- A call of a transform: the next number of the supply when it was called, the node that it was
called for and the ancestors of that node, and what it answered. -/
structure Call where
  supply : Supply
  node : Node
  ancestors : Ancestors
  answer : Except Failure (Option Node)

/-- Whether a call returned a node other than the one it was given. -/
def Call.replaces (c : Call) : Bool :=
  match c.answer with
  | .ok (some r) => !r.same c.node
  | _ => false

/-! ### Transforms that remember their calls -/

namespace Transform

variable {σ σ' : Type}

/-- The call of a transform in a state. -/
def callIn (fn : Transform σ) (n : Node) (a : Ancestors) (s : Supply × σ) : Call :=
  ⟨s.1, n, a, (fn n a s).1⟩

/-- The transform that also remembers its calls, the first one first. -/
def logged (fn : Transform σ) : Transform (σ × List Call) := fun n a s =>
  let o := fn n a (s.1, s.2.1)
  (o.1, o.2.1, o.2.2, s.2.2 ++ [fn.callIn n a (s.1, s.2.1)])

/-- A transform does what another one does, which remembers a part of what it remembers. -/
def Extends (fn' : Transform σ') (fn : Transform σ) (part : σ' → σ) : Prop :=
  ∀ n a supply memory, fn n a (supply, part memory) =
    ((fn' n a (supply, memory)).1, (fn' n a (supply, memory)).2.1,
      part (fn' n a (supply, memory)).2.2)

theorem logged_extends (fn : Transform σ) : fn.logged.Extends fn Prod.fst :=
  fun _ _ _ _ => rfl

end Transform

/-- The state of a pass with a part of what it remembers. -/
def PassState.part {σ σ' : Type} (f : σ' → σ) (st : PassState σ') : PassState σ :=
  ⟨st.supply, st.stats, f st.memory⟩

/-- The outcome of a pass with a part of what it remembers. -/
def Outcome.part {σ σ' : Type} (f : σ' → σ) (o : Outcome σ') : Outcome σ :=
  ⟨o.result, o.stats, o.supply, f o.memory⟩

namespace Pass

variable {σ σ' : Type}

section Extends

variable {fn : Transform σ} {fn' : Transform σ'} {f : σ' → σ}

/-- Two computations that do the same, up to what the second one remembers in addition. -/
def Same {α : Type} (f : σ' → σ) (p : Pass σ α) (q : Pass σ' α) : Prop :=
  ∀ st, p (st.part f) = ((q st).1, (q st).2.part f)

theorem Same.bind {α β : Type} {p : Pass σ α} {q : Pass σ' α} {g : α → Pass σ β}
    {h : α → Pass σ' β} (hp : Same f p q) (hg : ∀ a, Same f (g a) (h a)) :
    Same f (p >>= g) (q >>= h) := by
  intro st
  rw [bind_run, bind_run, hp st]
  rcases q st with ⟨e | a, st'⟩
  · rfl
  · exact hg a st'

theorem apply_same (h : fn'.Extends fn f) (a : Ancestors) (n : Node) :
    Same f (apply fn a n) (apply fn' a n) := by
  intro st
  rw [apply_run, apply_run]
  show _ = _
  simp only [PassState.part, h n a st.supply st.memory]

theorem regrow_same (n : Node) (changed : Option (List Node)) :
    Same f (regrow n changed) (regrow n changed) := by
  intro st
  cases changed with
  | none => rfl
  | some cs =>
      cases hm : n.rebuild (cs.map some) st.supply with
      | ok r =>
          have hm' : n.rebuild (cs.map some) (st.part f).supply = .ok (r.1, r.2) := hm
          rw [regrow_run hm', regrow_run hm]
          rfl
      | error e =>
          simp only [regrow, bind_run, tryCatch_run, making, orFail, PassState.part, hm]
          rfl

mutual
/-- A pass does the same for a transform that remembers more. -/
theorem eager_same (h : fn'.Extends fn f) :
    ∀ (n : Node) (a : Ancestors), Same f (eager fn a n) (eager fn' a n)
  | .missing, a => apply_same h a _
  | .token _, a => apply_same h a _
  | .list _ items _, _ =>
      .bind (eagerAll_same h items _) fun _ => .bind (regrow_same _ _) fun _ => apply_same h _ _
  | .composite _ _ cs _, _ =>
      .bind (eagerAll_same h cs _) fun _ => .bind (regrow_same _ _) fun _ => apply_same h _ _

theorem eagerAll_same (h : fn'.Extends fn f) :
    ∀ (cs : List Node) (a : Ancestors), Same f (eagerAll fn a cs) (eagerAll fn' a cs)
  | [], _ => fun _ => rfl
  | c :: cs, a =>
      .bind (eager_same h c a) fun _ => .bind (eagerAll_same h cs a) fun _ _ => rfl
end

/-- **Remembering more does not change a pass.** -/
theorem below_part (h : fn'.Extends fn f) (root : Node) (a : Ancestors) (supply : Supply)
    (memory : σ') :
    below root fn a supply (f memory) = (below root fn' a supply memory).part f := by
  have hrun : eager fn a root ⟨supply, {}, f memory⟩ = _ := eager_same h root a ⟨supply, {}, memory⟩
  rw [below_eq, below_eq]
  simp only [run, hrun]
  rfl

end Extends

/-! ### The rules of a pass -/

/-- A call and where it stands in a tree: the position it is for, the node at that position, and what
the children of that node became. -/
structure Entry where
  position : Position
  origin : Node
  results : List Node
  call : Call

/-- Whether a child at the position of a call became another object. -/
def Entry.childChanged (e : Entry) : Bool := !Node.sameAll e.results e.origin.children

/-- What a pass calls the transform for in the place of `n`, whose children became `rs`: `n` itself
if these are its children, object by object, and otherwise a new object with the next number. -/
inductive Regrown (n : Node) (rs : List Node) (st : PassState σ) : Node → PassState σ → Prop where
  | kept (h : Node.sameAll rs n.children = true) : Regrown n rs st n st
  | anew (h : Node.sameAll rs n.children = false) {cs : List Node}
      (hcs : Node.sameAll cs rs = true) :
      Regrown n rs st (n.renewed st.supply cs)
        ⟨st.supply + 1, { st.stats with rebuilt := st.stats.rebuilt + 1 }, st.memory⟩

mutual
/-- A pass visits a tree at a position, from one state to another: what it calls on the way, and what
comes out. -/
inductive Visits (fn : Transform σ) : Ancestors → Position → Node → PassState σ → List Entry →
    Except Failure Node → PassState σ → Prop where
  | call {a : Ancestors} {p : Position} {n m : Node} {st st₁ st₂ : PassState σ} {tr : List Entry}
      {rs : List Node} (hall : VisitsAll fn (a.push n) p 0 n.children st tr (.ok rs) st₁)
      (hm : Regrown n rs st₁ m st₂) :
      Visits fn a p n st (tr ++ [⟨p, n, rs, fn.callIn m a (st₂.supply, st₂.memory)⟩])
        (apply fn a m st₂).1 (apply fn a m st₂).2
  | stop {a : Ancestors} {p : Position} {n : Node} {st st₁ : PassState σ} {tr : List Entry}
      {e : Failure} (hall : VisitsAll fn (a.push n) p 0 n.children st tr (.error e) st₁) :
      Visits fn a p n st tr (.error e) st₁

/-- A pass visits children of the node at a position, the first of which is number `i`. -/
inductive VisitsAll (fn : Transform σ) : Ancestors → Position → Nat → List Node → PassState σ →
    List Entry → Except Failure (List Node) → PassState σ → Prop where
  | nil {a : Ancestors} {p : Position} {i : Nat} {st : PassState σ} :
      VisitsAll fn a p i [] st [] (.ok []) st
  | cons {a : Ancestors} {p : Position} {i : Nat} {c r : Node} {cs rs : List Node}
      {st st₁ st₂ : PassState σ} {tr tr' : List Entry}
      (h : Visits fn a (p ++ [i]) c st tr (.ok r) st₁)
      (hrest : VisitsAll fn a p (i + 1) cs st₁ tr' (.ok rs) st₂) :
      VisitsAll fn a p i (c :: cs) st (tr ++ tr') (.ok (r :: rs)) st₂
  | later {a : Ancestors} {p : Position} {i : Nat} {c r : Node} {cs : List Node} {e : Failure}
      {st st₁ st₂ : PassState σ} {tr tr' : List Entry}
      (h : Visits fn a (p ++ [i]) c st tr (.ok r) st₁)
      (hrest : VisitsAll fn a p (i + 1) cs st₁ tr' (.error e) st₂) :
      VisitsAll fn a p i (c :: cs) st (tr ++ tr') (.error e) st₂
  | stop {a : Ancestors} {p : Position} {i : Nat} {c : Node} {cs : List Node} {e : Failure}
      {st st₁ : PassState σ} {tr : List Entry}
      (h : Visits fn a (p ++ [i]) c st tr (.error e) st₁) :
      VisitsAll fn a p i (c :: cs) st tr (.error e) st₁
end

variable {fn : Transform σ} {K : Kind → Prop}

theorem VisitsAll.length_eq {a : Ancestors} {p : Position} {i : Nat} {cs rs : List Node}
    {st st' : PassState σ} {tr : List Entry} (h : VisitsAll fn a p i cs st tr (.ok rs) st') :
    rs.length = cs.length := by
  induction cs generalizing i rs st tr with
  | nil => cases h; rfl
  | cons c cs ih => cases h with | cons _ hrest => exact congrArg (· + 1) (ih hrest)

/-! ### Every run is of that form -/

/-- The new children of a node: none exactly when all results are the old children, and otherwise
the results, object by object. -/
theorem changes_spec {cs rs : List Node} (hlen : rs.length = cs.length) :
    match changes cs rs with
    | none => Node.sameAll rs cs = true
    | some xs => Node.sameAll rs cs = false ∧ Node.sameAll xs rs = true := by
  induction cs generalizing rs with
  | nil =>
      obtain rfl := List.eq_nil_of_length_eq_zero hlen
      rfl
  | cons c cs ih =>
      cases rs with
      | nil => cases hlen
      | cons r rs =>
          have ih := ih (Nat.succ.inj hlen)
          by_cases hs : r.same c = true
          · rw [changes, if_pos hs, Node.sameAll, hs, Bool.true_and]
            cases hch : changes cs rs with
            | none =>
                rw [hch] at ih
                exact ih
            | some xs =>
                rw [hch] at ih
                exact ⟨ih.1, by simp [Node.sameAll, Node.same_comm c r, hs, ih.2]⟩
          · simp [changes, Node.sameAll, hs]

/-- A sound node can be made from as many results as it has children. -/
theorem regrow_regrown {n : Node} (hn : n.Sound K) {rs : List Node}
    (hlen : rs.length = n.children.length) (st : PassState σ) :
    ∃ m st', regrow n (changes n.children rs) st = (.ok m, st') ∧ Regrown n rs st m st' := by
  have hspec := changes_spec hlen
  cases hch : changes n.children rs with
  | none =>
      rw [hch] at hspec
      exact ⟨n, st, rfl, .kept hspec⟩
  | some xs =>
      rw [hch] at hspec
      have hxs : xs.length = n.children.length := (Node.length_eq_of_sameAll hspec.2).trans hlen
      -- a node without children has no results that could differ from them
      have hinner : n.IsInner := by
        cases n with
        | missing | token _ => cases hch
        | list _ _ _ | composite _ _ _ _ => trivial
      exact ⟨_, _, regrow_run (hn.rebuild_eq hinner hxs st.supply), .anew hspec.1 hspec.2⟩

/-- A node whose children are visited: the pass stops with them, or goes on with the node. -/
theorem inner_visits {a : Ancestors} {p : Position} {n : Node} (hn : n.Sound K)
    {q : Pass σ (List Node)} {st : PassState σ} {tr : List Entry}
    (hall : VisitsAll fn (a.push n) p 0 n.children st tr (q st).1 (q st).2) :
    ∃ tr', Visits fn a p n st tr'
      ((do apply fn a (← regrow n (changes n.children (← q))) : Pass σ Node) st).1
      ((do apply fn a (← regrow n (changes n.children (← q))) : Pass σ Node) st).2 := by
  rw [bind_run]
  rcases hq : q st with ⟨e | rs, st₁⟩
  · rw [hq] at hall
    exact ⟨tr, .stop hall⟩
  · rw [hq] at hall
    obtain ⟨m, st₂, hm, hgrown⟩ := regrow_regrown hn hall.length_eq st₁
    simp only [bind_run, hm]
    exact ⟨_, .call hall hgrown⟩

/-- A leaf has no children to visit. -/
theorem leaf_visits {a : Ancestors} {p : Position} {n : Node} (hn : n.children = [])
    (st : PassState σ) :
    ∃ tr, Visits fn a p n st tr (apply fn a n st).1 (apply fn a n st).2 := by
  have hall : VisitsAll fn (a.push n) p 0 n.children st [] (.ok n.children) st := by
    rw [hn]
    exact .nil
  exact ⟨_, .call hall (.kept (Node.sameAll_self _))⟩

mutual
/-- **Every pass over a sound tree goes by the rules.** -/
theorem eager_visits : ∀ {n : Node}, n.Sound K → ∀ (a : Ancestors) (p : Position)
    (st : PassState σ), ∃ tr, Visits fn a p n st tr (eager fn a n st).1 (eager fn a n st).2
  | .missing, _, _, _, st => leaf_visits rfl st
  | .token _, _, _, _, st => leaf_visits rfl st
  | .list _ _ _, hn, a, p, st =>
      let ⟨_, hall⟩ := eagerAll_visits hn.children (a.push _) p 0 st
      inner_visits hn hall
  | .composite _ _ _ _, hn, a, p, st =>
      let ⟨_, hall⟩ := eagerAll_visits hn.children (a.push _) p 0 st
      inner_visits hn hall

theorem eagerAll_visits : ∀ {cs : List Node}, (∀ c ∈ cs, c.Sound K) → ∀ (a : Ancestors)
    (p : Position) (i : Nat) (st : PassState σ),
      ∃ tr, VisitsAll fn a p i cs st tr (eagerAll fn a cs st).1 (eagerAll fn a cs st).2
  | [], _, _, _, _, _ => ⟨[], .nil⟩
  | c :: cs, hcs, a, p, i, st => by
      obtain ⟨tr, h⟩ := eager_visits (hcs c (.head _)) a (p ++ [i]) st
      simp only [eagerAll, bind_run]
      rcases hc : eager fn a c st with ⟨e | r, st₁⟩
      · rw [hc] at h
        exact ⟨tr, .stop h⟩
      · rw [hc] at h
        obtain ⟨tr', hrest⟩ := eagerAll_visits (fun c' h => hcs c' (.tail _ h)) a p (i + 1) st₁
        dsimp only
        rcases hall : eagerAll fn a cs st₁ with ⟨e | rs, st₂⟩
        · rw [hall] at hrest
          exact ⟨tr ++ tr', .later h hrest⟩
        · rw [hall] at hrest
          exact ⟨tr ++ tr', .cons h hrest⟩
end

/-! ### What is remembered -/

mutual
/-- **A transform that remembers its calls remembers those of the trace.** -/
theorem Visits.log {a : Ancestors} {p : Position} {n : Node} {st st' : PassState (σ × List Call)}
    {tr : List Entry} {o : Except Failure Node} :
    Visits fn.logged a p n st tr o st' → st'.memory.2 = st.memory.2 ++ tr.map (·.call)
  | .call hall hm => by
      have hlog := hall.log
      rw [apply_run]
      cases hm <;> simp [Transform.logged, Transform.callIn, hlog]
  | .stop hall => hall.log

theorem VisitsAll.log {a : Ancestors} {p : Position} {i : Nat} {cs : List Node}
    {st st' : PassState (σ × List Call)} {tr : List Entry} {o : Except Failure (List Node)} :
    VisitsAll fn.logged a p i cs st tr o st' → st'.memory.2 = st.memory.2 ++ tr.map (·.call)
  | .nil => by simp
  | .cons h hrest | .later h hrest => by simp [hrest.log, h.log]
  | .stop h => h.log
end

end Pass

end Lossless
