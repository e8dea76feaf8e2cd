import Lossless.Node.Equal
import Lossless.Proofs.Node.Sound

/-!
# Node — trees of the same structure

Two trees are *alike* when they agree in everything but the identities of their nodes and the slots
of their kinds: in classes, names of kinds, texts, trivia and children (`Node.Alike`).  Widths do not
count, as alike trees have the same full text (`Alike.fullText`), so that sound ones are of one width
and structurally equal (`Alike.equal`).
-/

namespace Lossless.Node

mutual
/-- The same structure, whatever the objects are. -/
inductive Alike : Node → Node → Prop where
  | missing : Alike .missing .missing
  | token {t u : Token} (hkind : t.kind = u.kind) (hleading : t.leading = u.leading)
      (htext : t.text = u.text) (htrailing : t.trailing = u.trailing) :
      Alike (.token t) (.token u)
  | list {id id' w w' : Nat} {items items' : List Node} (h : AlikeAll items items') :
      Alike (.list id items w) (.list id' items' w')
  | composite {id id' w w' : Nat} {k k' : Kind} {cs cs' : List Node} (hk : k.name = k'.name)
      (h : AlikeAll cs cs') : Alike (.composite id k cs w) (.composite id' k' cs' w')

@[inherit_doc Alike]
inductive AlikeAll : List Node → List Node → Prop where
  | nil : AlikeAll [] []
  | cons {m n : Node} {ms ns : List Node} (h : Alike m n) (hs : AlikeAll ms ns) :
      AlikeAll (m :: ms) (n :: ns)
end

theorem AlikeAll.length_eq : ∀ {ms ns : List Node}, AlikeAll ms ns → ms.length = ns.length
  | _, _, .nil => rfl
  | _, _, .cons _ hs => congrArg (· + 1) hs.length_eq

mutual
theorem Alike.refl : ∀ n : Node, Alike n n
  | .missing => .missing
  | .token _ => .token rfl rfl rfl rfl
  | .list _ items _ => .list (AlikeAll.refl items)
  | .composite _ _ cs _ => .composite rfl (AlikeAll.refl cs)

theorem AlikeAll.refl : ∀ ns : List Node, AlikeAll ns ns
  | [] => .nil
  | n :: ns => .cons (Alike.refl n) (AlikeAll.refl ns)
end

mutual
theorem Alike.symm : ∀ {a b : Node}, Alike a b → Alike b a
  | _, _, .missing => .missing
  | _, _, .token hkind hleading htext htrailing =>
      .token hkind.symm hleading.symm htext.symm htrailing.symm
  | _, _, .list h => .list h.symm
  | _, _, .composite hk h => .composite hk.symm h.symm

theorem AlikeAll.symm : ∀ {as bs : List Node}, AlikeAll as bs → AlikeAll bs as
  | _, _, .nil => .nil
  | _, _, .cons h hs => .cons h.symm hs.symm
end

mutual
theorem Alike.trans : ∀ {a b c : Node}, Alike a b → Alike b c → Alike a c
  | _, _, _, .missing, .missing => .missing
  | _, _, _, .token hkind hleading htext htrailing, .token hkind' hleading' htext' htrailing' =>
      .token (hkind.trans hkind') (hleading.trans hleading') (htext.trans htext')
        (htrailing.trans htrailing')
  | _, _, _, .list h, .list h' => .list (h.trans h')
  | _, _, _, .composite hk h, .composite hk' h' => .composite (hk.trans hk') (h.trans h')

theorem AlikeAll.trans :
    ∀ {as bs cs : List Node}, AlikeAll as bs → AlikeAll bs cs → AlikeAll as cs
  | _, _, _, .nil, .nil => .nil
  | _, _, _, .cons h hs, .cons h' hs' => .cons (h.trans h') (hs.trans hs')
end

mutual
/-- Alike trees have the same text. -/
theorem Alike.fullText : ∀ {a b : Node}, Alike a b → a.fullText = b.fullText
  | _, _, .missing => rfl
  | _, _, .token _ hleading htext htrailing => by
      simp only [Node.fullText, Token.fullText, Token.leadingText, Token.trailingText, hleading,
        htext, htrailing]
  | _, _, .list h => h.fullTextAll
  | _, _, .composite _ h => h.fullTextAll

theorem AlikeAll.fullTextAll :
    ∀ {as bs : List Node}, AlikeAll as bs → Node.fullTextAll as = Node.fullTextAll bs
  | _, _, .nil => rfl
  | _, _, .cons h hs => by simp only [Node.fullTextAll, h.fullText, hs.fullTextAll]
end

theorem Alike.kind_eq {a b : Node} (h : Alike a b) : a.kind = b.kind := by
  cases h with
  | missing | list _ => rfl
  | token hkind | composite hkind => exact hkind

section Equal

variable {K : Kind → Prop}

theorem Alike.sameShape {a b : Node} (h : Alike a b) (ha : a.Sound K) (hb : b.Sound K) :
    sameShape a b = true := by
  have hwidth : a.width = b.width := by rw [ha.width_eq, hb.width_eq, h.fullText]
  have hclass : a.nodeClass = b.nodeClass := by cases h <;> rfl
  simp [Node.sameShape, hwidth, hclass, h.kind_eq]

mutual
/-- **Alike sound trees are structurally equal.** -/
theorem Alike.equal : ∀ {a b : Node}, Alike a b → a.Sound K → b.Sound K → equal a b = true
  | _, _, .missing, _, _ => rfl
  | _, _, .token hkind hleading htext htrailing, ha, hb => by
      rw [Node.equal, (Alike.token hkind hleading htext htrailing).sameShape ha hb]
      simp [sameToken, hleading, htext, htrailing]
  | _, _, .list h, ha, hb => by
      rw [Node.equal, (Alike.list h).sameShape ha hb]
      simp [children, h.equalAll ha.children hb.children]
  | _, _, .composite hk h, ha, hb => by
      rw [Node.equal, (Alike.composite hk h).sameShape ha hb]
      simp [children, h.equalAll ha.children hb.children]

@[inherit_doc Alike.equal]
theorem AlikeAll.equalAll : ∀ {as bs : List Node}, AlikeAll as bs → (∀ a ∈ as, a.Sound K) →
    (∀ b ∈ bs, b.Sound K) → equalAll as bs = true
  | _, _, .nil, _, _ => rfl
  | _, _, .cons h hs, ha, hb => by
      rw [Node.equalAll, h.equal (ha _ (.head _)) (hb _ (.head _)),
        hs.equalAll (fun a h => ha a (.tail _ h)) fun b h => hb b (.tail _ h)]
      rfl
end

end Equal

end Lossless.Node
