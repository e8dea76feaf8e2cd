import Lossless.Migration.Builtin
import Lossless.Proofs.Migration.Settling
import Lossless.Proofs.Pass.Twins

/-!
# Migration — pure steps

What a pure step makes of a tree does not depend on the numbers of the nodes (`Step.Pure`).  So
applying a pure step, a migration of such steps, or several migrations in order to twins gives twins,
or the same error (`Step.apply_mirrors`, `Migration.apply_mirrors`, `applyAll_mirrors`).  In
particular applying a migration twice to one tree gives trees that are equal, and that are the tree
itself in the same cases.

The built-in steps are pure (`builtins_pure`): all that they do is look into slots, compare kinds and
texts, and put tokens into slots.  So is every transform that changes the tokens of a kind by what
their parts are (`changeTokens_pure`, `Token.mirrors_of_change`).
-/

namespace Lossless

open Make (Mirrored Mirrors)

variable {S : Set Node} {R : Pairing} {m n : Node} {s t : Supply}

/-! ### Applying pure steps -/

/-- A step whose transform is pure. -/
def Step.Pure (S : Set Node) (st : Step) : Prop := st.transform.Pure S

/-- A migration whose steps are pure. -/
def Migration.Pure (S : Set Node) (mig : Migration) : Prop := ∀ st ∈ mig.steps, st.Pure S

/-- **A pure step** over twins: the same is counted, and the results are twins or the same error. -/
theorem Step.applyWithStats_mirrors {st : Step} (h : st.Pure S) (htwins : Twins S s t R)
    (hmn : R m n) :
    (st.applyWithStats m s).stats = (st.applyWithStats n t).stats ∧
      match (st.applyWithStats m s).result, (st.applyWithStats n t).result with
      | .ok r, .ok r' => ∃ R', R ≤ R' ∧
          Twins S (st.applyWithStats m s).supply (st.applyWithStats n t).supply R' ∧ R' r r'
      | .error e, .error e' => e = e'
      | _, _ => False := by
  obtain ⟨hstats, hresult⟩ := Pass.withStats_mirrors (h.mono bot_le) hmn htwins
  refine ⟨hstats, ?_⟩
  unfold Step.applyWithStats
  match Pass.withStats m st.transform s, Pass.withStats n st.transform t, hresult with
  | ⟨.ok _, _, _, _⟩, ⟨.ok _, _, _, _⟩, h => exact h
  | ⟨.error _, _, _, _⟩, ⟨.error _, _, _, _⟩, rfl => rfl

theorem Step.apply_mirrors {st : Step} (h : st.Pure S) (hmn : R m n) :
    Mirrors S R (fun R' => R') (st.apply m) (st.apply n) := by
  intro R' s t hle htwins
  obtain ⟨-, hresult⟩ := applyWithStats_mirrors h htwins (hle _ _ hmn)
  unfold Step.apply
  match st.applyWithStats m s, st.applyWithStats n t, hresult with
  | ⟨.ok _, _, _⟩, ⟨.ok _, _, _⟩, h => exact h
  | ⟨.error _, _, _⟩, ⟨.error _, _, _⟩, rfl => rfl

theorem applySteps_mirrors {steps : List Step} (h : ∀ st ∈ steps, st.Pure S) (hmn : R m n) :
    Mirrors S R (fun R' => R') (applySteps steps m) (applySteps steps n) := by
  induction steps generalizing R m n with
  | nil => exact .pure fun hle => hle _ _ hmn
  | cons st steps ih =>
      exact (Step.apply_mirrors (h st (.head _)) hmn).bind fun _ hr =>
        ih (fun st' h' => h st' (.tail _ h')) hr

namespace Migration

theorem apply_mirrors {mig : Migration} (h : mig.Pure S) (hmn : R m n) :
    Mirrors S R (fun R' => R') (mig.apply m) (mig.apply n) :=
  (applySteps_mirrors h hmn).mapError _

/-- Applies migrations in order, each to the result of the one before. -/
def applyAll (ms : List Migration) (root : Node) : Make MigrationFailure Node :=
  ms.foldlM (fun n m => m.apply n) root

theorem applyAll_cons (mig : Migration) (ms : List Migration) (root : Node) :
    applyAll (mig :: ms) root = mig.apply root >>= applyAll ms := List.foldlM_cons

theorem applyAll_mirrors {ms : List Migration} (h : ∀ mig ∈ ms, mig.Pure S) (hmn : R m n) :
    Mirrors S R (fun R' => R') (applyAll ms m) (applyAll ms n) := by
  induction ms generalizing R m n with
  | nil => exact .pure fun hle => hle _ _ hmn
  | cons mig ms ih =>
      rw [applyAll_cons, applyAll_cons]
      exact (apply_mirrors (h mig (.head _)) hmn).bind fun _ hr =>
        ih (fun mig' h' => h mig' (.tail _ h')) hr

end Migration

/-! ### Looking at twins -/

/-- LooksAlike that have corresponding results, or fail with the same error. -/
def LooksAlike {α β ε : Type} (Q : α → β → Prop) : Except ε α → Except ε β → Prop
  | .ok a, .ok b => Q a b
  | .error e, .error e' => e = e'
  | _, _ => False

theorem Migration.looking_mirrors {α β : Type} {Q : Pairing → α → β → Prop}
    (hQ : ∀ {R R' a b}, R ≤ R' → Q R a b → Q R' a b) {r : Except NodeError α}
    {r' : Except NodeError β} (h : LooksAlike (Q R) r r') :
    Mirrors S R Q (Migration.looking r) (Migration.looking r') := by
  match r, r', h with
  | .ok a, .ok b, h => exact .pure fun hle => hQ hle h
  | .error e, .error _, rfl => exact .throw (Failure.node e)

theorem orFail_mirrors {α β : Type} {Q : Pairing → α → β → Prop} {x : Make NodeError α}
    {y : Make NodeError β} (h : Mirrors S R Q x y) : Mirrors S R Q (orFail x) (orFail y) := by
  intro R' s t hle htwins
  have hrun := h hle htwins
  unfold orFail
  match x s, y t, hrun with
  | .ok _, .ok _, h => exact h
  | .error _, .error _, rfl => rfl

namespace Composite

variable {c d : Composite}

theorem has_twins (htwins : Twins S s t R) (h : CompositeTwins R c d) (slot : String) :
    c.has slot = d.has slot := by
  obtain ⟨hkind, -, hchildren⟩ := twins_of_looks htwins h
  unfold has
  rw [hkind]
  split
  · rfl
  · next i _ _ =>
      rw [(htwins.looks (twins_getD htwins hchildren i)).isMissing_eq]

theorem get_twins (htwins : Twins S s t R) (h : CompositeTwins R c d) (slot : String) :
    LooksAlike R (c.get slot) (d.get slot) := by
  obtain ⟨hkind, -, hchildren⟩ := twins_of_looks htwins h
  unfold get
  rw [hkind]
  split
  · rfl
  · next i sl _ =>
      have hchild := twins_getD htwins hchildren i
      have hlooks := htwins.looks hchild
      dsimp only
      rw [hlooks.nodeClass_eq, hlooks.kind_eq]
      split
      · exact hchild
      · rfl

theorem getOfClass_twins (htwins : Twins S s t R) (h : CompositeTwins R c d) (cls : NodeClass)
    (slot : String) : LooksAlike R (c.getOfClass cls slot) (d.getOfClass cls slot) := by
  obtain ⟨hkind, -, -⟩ := twins_of_looks htwins h
  unfold getOfClass
  match c.get slot, d.get slot, get_twins htwins h slot with
  | .error _, .error _, rfl => rfl
  | .ok child, .ok child', hchild =>
      have hlooks := htwins.looks hchild
      simp only [hlooks.nodeClass_eq, hlooks.kind_eq, hkind]
      split
      · exact hchild
      · rfl

theorem getToken_twins (htwins : Twins S s t R) (h : CompositeTwins R c d) (slot : String) :
    LooksAlike (TokenTwins R) (c.getToken slot) (d.getToken slot) := by
  unfold getToken
  match c.getOfClass .token slot, d.getOfClass .token slot,
    getOfClass_twins htwins h .token slot with
  | .error _, .error _, rfl => rfl
  | .ok child, .ok child', hchild =>
      cases htwins.looks hchild with
      | token _ _ => exact hchild
      | missing | list _ _ _ _ | composite _ _ _ _ _ => rfl

theorem getComposite_twins (htwins : Twins S s t R) (h : CompositeTwins R c d) (slot : String) :
    LooksAlike (CompositeTwins R) (c.getComposite slot) (d.getComposite slot) := by
  unfold getComposite
  match c.getOfClass .composite slot, d.getOfClass .composite slot,
    getOfClass_twins htwins h .composite slot with
  | .error _, .error _, rfl => rfl
  | .ok child, .ok child', hchild =>
      cases htwins.looks hchild with
      | composite _ _ _ _ _ => exact hchild
      | missing | token _ _ | list _ _ _ _ => rfl

end Composite

mutual
theorem Node.firstToken_twins (htwins : Twins S s t R) : ∀ {m n : Node}, R m n →
    Option.Rel (TokenTwins R) m.firstToken n.firstToken
  | .missing, _, hmn => by
      cases htwins.looks hmn
      exact .none
  | .token _, _, hmn => by
      cases htwins.looks hmn
      exact .some hmn
  | .list _ items _, _, hmn => by
      cases htwins.looks hmn with
      | list _ _ _ h => exact firstTokenAll_twins htwins h
  | .composite _ _ cs _, _, hmn => by
      cases htwins.looks hmn with
      | composite _ _ _ _ h => exact firstTokenAll_twins htwins h

theorem Node.firstTokenAll_twins (htwins : Twins S s t R) : ∀ {cs ds : List Node},
    List.Forall₂ R cs ds → Option.Rel (TokenTwins R) (firstTokenAll cs) (firstTokenAll ds)
  | [], _, .nil => .none
  | c :: cs, d :: ds, .cons hcd hcs => by
      rw [firstTokenAll, firstTokenAll]
      match c.firstToken, d.firstToken, firstToken_twins htwins hcd with
      | some _, some _, .some h => exact .some h
      | none, none, .none => exact firstTokenAll_twins htwins hcs
end

/-! ### Changed tokens -/

theorem Node.token?_twins (htwins : Twins S s t R) (hmn : R m n) :
    Option.Rel (TokenTwins R) m.token? n.token? := by
  cases htwins.looks hmn with
  | missing | list _ _ _ _ | composite _ _ _ _ _ => exact .none
  | token _ _ => exact .some hmn

/-- The transform that changes the tokens of a kind. -/
def changeTokens (kind : String) (f : Token → Make NodeError Token) : PureTransform := fun n _ =>
  match n.token? with
  | none => pure (some n)
  | some t => if t.kind = kind then do return some (.token (← orFail (f t))) else pure (some n)

/-- A change of tokens that mirrors itself is pure. -/
theorem changeTokens_pure (kind : String) {f : Token → Make NodeError Token}
    (h : ∀ {R u v}, TokenTwins R u v → Mirrors S R TokenTwins (f u) (f v)) :
    (changeTokens kind f).Pure S := by
  intro R m n a b _ hmn _
  refine Mirrors.of_twins fun {R₁ _ _} hle₁ htwins => ?_
  have hstay : Mirrors S R₁ AnswerTwins
      (pure (some m) : Make Failure (Option Node)) (pure (some n)) :=
    .pure fun hle => .some ((hle₁.trans hle) _ _ hmn)
  unfold changeTokens
  match m.token?, n.token?, Node.token?_twins htwins (hle₁ _ _ hmn) with
  | none, none, .none => exact hstay
  | some u, some v, .some huv =>
      obtain ⟨hkind, -, -, -⟩ := Token.twins_of_looks htwins huv
      simp only [hkind]
      split
      · exact (orFail_mirrors (h huv)).bind fun _ hr => .pure fun hle => .some (hle _ _ hr)
      · exact hstay

/-- A change of tokens mirrors itself when it only looks at the parts of a token: tokens with the parts
of `v` stay as they are, or one and the same token is made for all of them. -/
theorem Token.mirrors_of_change {ε : Type} {p : Prop} [Decidable p] {u v : Token}
    {kind : String} {leading trailing : List Trivia} {text : Text} (h : TokenTwins R u v)
    (f : Token → Make ε Token)
    (hf : ∀ t : Token, t.kind = v.kind → t.leading = v.leading → t.text = v.text →
      t.trailing = v.trailing → f t = if p then pure t else make kind leading text trailing) :
    Mirrors S R TokenTwins (f u) (f v) :=
  .of_twins fun hle htwins => by
    obtain ⟨hkind, hleading, htext, htrailing⟩ := Token.twins_of_looks htwins (hle _ _ h)
    rw [hf u hkind hleading htext htrailing, hf v rfl rfl rfl rfl]
    exact Token.change_mirrors (hle _ _ h) kind leading text trailing

theorem Token.withKind_mirrors {ε : Type} {u v : Token} (h : TokenTwins R u v) (kind : String) :
    Mirrors S R TokenTwins (u.withKind kind : Make ε Token) (v.withKind kind) :=
  mirrors_of_change h (·.withKind kind) fun t hkind hleading htext htrailing => by
    rw [withKind, hkind, hleading, htext, htrailing]

/-- A text put behind the one that is there. -/
theorem Token.withText_append_mirrors {ε : Type} {u v : Token} (h : TokenTwins R u v) (text : Text) :
    Mirrors S R TokenTwins (u.withText (u.text ++ text) : Make ε Token)
      (v.withText (v.text ++ text)) :=
  mirrors_of_change h (fun t => t.withText (t.text ++ text)) fun t hkind hleading htext htrailing => by
    rw [withText, hkind, hleading, htext, htrailing]

/-! ### The built-in steps -/

theorem Token.withKindAndText_mirrors {ε : Type} {u v : Token} (h : TokenTwins R u v)
    (kind : String) (text : Text) :
    Mirrors S R TokenTwins (u.withKindAndText kind text : Make ε Token)
      (v.withKindAndText kind text) :=
  mirrors_of_change h (·.withKindAndText kind text) fun t hkind hleading htext htrailing => by
    rw [withKindAndText, hkind, hleading, htext, htrailing]

theorem Token.withLeading_mirrors {ε : Type} {u v : Token} (h : TokenTwins R u v)
    (leading : List Trivia) :
    Mirrors S R TokenTwins (u.withLeading leading : Make ε Token) (v.withLeading leading) :=
  mirrors_of_change h (·.withLeading leading) fun t hkind hleading htext htrailing => by
    rw [withLeading, hkind, hleading, htext, htrailing]

theorem moveLeadingTrivia_mirrors {u v : Token} (hmn : R m n) (h : TokenTwins R u v) :
    Mirrors S R (fun R' p q => R' p.1 q.1 ∧ TokenTwins R' p.2 q.2) (moveLeadingTrivia m u)
      (moveLeadingTrivia n v) :=
  .of_twins fun {R₁ _ _} hle₁ htwins => by
    have hstay : Mirrors S R₁ (fun R' p q => R' p.1 q.1 ∧ TokenTwins R' p.2 q.2)
        (pure (m, u) : Make Failure (Node × Token)) (pure (n, v)) :=
      .pure fun hle => ⟨(hle₁.trans hle) _ _ hmn, (hle₁.trans hle) _ _ h⟩
    unfold moveLeadingTrivia
    match m.firstToken, n.firstToken, Node.firstToken_twins htwins (hle₁ _ _ hmn) with
    | none, none, .none => exact hstay
    | some first, some first', .some hfirst =>
        obtain ⟨hkind, hleading, -, -⟩ := Token.twins_of_looks htwins hfirst
        have hfront := Token.twins_of_looks htwins (hle₁ _ _ h)
        have htext : first.leadingText = first'.leadingText := congrArg triviaText hleading
        simp only [htext, hleading, hkind, hfront.2.1]
        -- a name with nothing in front is left alone on both sides
        by_cases hempty : first'.leadingText = []
        · rw [if_pos hempty, if_pos hempty]
          exact hstay
        · rw [if_neg hempty, if_neg hempty]
          refine (Token.withLeading_mirrors hfirst []).bind fun {R₂ _ _} hle₂ hbare => ?_
          refine ((Pass.replace_mirrors ((hle₁.trans hle₂) _ _ hmn) (hle₂ _ _ hfirst)
            hbare).mapError _).bind fun {R₃ _ _} hle₃ hstripped => ?_
          have hle := (hle₁.trans hle₂).trans hle₃
          refine (Token.withLeading_mirrors (hle _ _ h) _).bind fun hle₄ hmark => ?_
          exact .pure fun hle₅ => ⟨(hle₄.trans hle₅) _ _ hstripped, hle₅ _ _ hmark⟩

/-- A composite that a node is. -/
theorem Node.composite?_twins (htwins : Twins S s t R) (hmn : R m n) :
    Option.Rel (CompositeTwins R) m.composite? n.composite? := by
  have hlooks := htwins.looks hmn
  cases hlooks with
  | missing | token _ _ | list _ _ _ _ => exact .none
  | composite _ _ _ _ _ => exact .some hmn

namespace Migration

theorem optionalField_pure (S : Set Node) : optionalField.Pure S := by
  intro R m n a b _ hmn _
  refine Mirrors.of_twins fun {R₁ _ _} hle₁ htwins => ?_
  have hstay : ∀ {R'}, R₁ ≤ R' → Mirrors S R' AnswerTwins
      (pure (some m) : Make Failure (Option Node)) (pure (some n)) :=
    fun hle => .pure fun hle' => .some ((hle₁.trans (hle.trans hle')) _ _ hmn)
  unfold optionalField
  match m.composite?, n.composite?, Node.composite?_twins htwins (hle₁ _ _ hmn) with
  | none, none, .none => exact hstay le_rfl
  | some c, some d, .some hcd =>
      obtain ⟨hkind, -, -⟩ := Composite.twins_of_looks htwins hcd
      have hhas := Composite.has_twins htwins hcd "question"
      simp only [hkind, hhas]
      -- the test on the kind and the slot comes out alike on both sides
      split
      · exact hstay le_rfl
      · refine (looking_mirrors (Q := fun R' => R') (fun hle h => hle _ _ h)
          (Composite.get_twins htwins hcd "type")).bind fun {R₂ type type'} hle₂ htype => ?_
        refine Mirrors.of_twins fun {R₃ _ _} hle₃ htwins₃ => ?_
        rw [(htwins₃.looks (hle₃ _ _ htype)).kind_eq]
        split
        · exact hstay (hle₂.trans hle₃)
        have hcd₃ : CompositeTwins R₃ c d := (hle₂.trans hle₃) _ _ hcd
        refine (looking_mirrors (Q := CompositeTwins) (fun hle h => hle _ _ h)
          (Composite.getComposite_twins htwins₃ hcd₃ "name")).bind fun {R₄ name name'} hle₄ hname => ?_
        refine (Token.make_mirrors _ _ _ _).bind fun {R₅ mark mark'} hle₅ hmark => ?_
        refine (moveLeadingTrivia_mirrors (hle₅ _ _ hname) hmark).bind fun {R₆ p q} hle₆ hmoved => ?_
        obtain ⟨hname', hmark'⟩ := hmoved
        have hcd₆ := ((hle₄.trans hle₅).trans hle₆) _ _ hcd₃
        refine (orFail_mirrors (Composite.withSlot_mirrors hcd₆ hmark' "question")).bind
          fun {R₇ _ _} hle₇ hfield => ?_
        refine (orFail_mirrors (Composite.withSlot_mirrors hfield (hle₇ _ _ hname') "name")).bind
          fun {R₈ _ _} hle₈ hfield' => ?_
        exact .pure fun hle => .some (hle _ _ hfield')

theorem labelColon_pure (S : Set Node) (kind : String) : (labelColon kind).Pure S := by
  intro R m n a b _ hmn _
  refine Mirrors.of_twins fun {R₁ _ _} hle₁ htwins => ?_
  have hstay : Mirrors S R₁ AnswerTwins
      (pure (some m) : Make Failure (Option Node)) (pure (some n)) :=
    .pure fun hle => .some ((hle₁.trans hle) _ _ hmn)
  unfold labelColon
  match m.composite?, n.composite?, Node.composite?_twins htwins (hle₁ _ _ hmn) with
  | none, none, .none => exact hstay
  | some c, some d, .some hcd =>
      obtain ⟨hkind, -, -⟩ := Composite.twins_of_looks htwins hcd
      have hhas := Composite.has_twins htwins hcd "colon"
      simp only [hkind, hhas]
      -- the test on the kind and the slot comes out alike on both sides
      split
      · exact hstay
      · refine (looking_mirrors (Q := TokenTwins) (fun hle h => hle _ _ h)
          (Composite.getToken_twins htwins hcd "colon")).bind fun {R₂ _ _} hle₂ hstop => ?_
        refine (Token.withKindAndText_mirrors hstop _ _).bind fun {R₃ _ _} hle₃ hcolon => ?_
        refine (orFail_mirrors (Composite.withSlot_mirrors ((hle₂.trans hle₃) _ _ hcd) hcolon
          "colon")).bind fun {R₄ _ _} hle₄ hlabel => ?_
        exact .pure fun hle => .some (hle _ _ hlabel)

/-- **The built-in migrations are pure**, whatever objects there are. -/
theorem builtins_pure (S : Set Node) : ∀ mig ∈ builtins, mig.Pure S := by
  intro mig hmig st hst
  rcases List.mem_cons.mp hmig with rfl | hmig
  · obtain rfl := List.mem_singleton.mp hst
    exact optionalField_pure S
  · obtain rfl := List.mem_singleton.mp hmig
    rcases List.mem_cons.mp hst with rfl | hst
    · exact labelColon_pure S _
    · obtain rfl := List.mem_singleton.mp hst
      exact labelColon_pure S _

end Migration

end Lossless
