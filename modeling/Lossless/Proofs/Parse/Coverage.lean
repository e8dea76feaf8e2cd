import Lossless.Proofs.Parse.Acceptance

/-!
# Parse — trees cover their source

A tree that is built is sound, and its texts are read in the source from its offset on
(`Realizes`).  So the text of every node is the part of the source that starts at the place of the
node and is as long as the node is wide (`fromJson_stands`), and a tree that has to be as wide as
the source has the source for its text (`fromDecoded_fullText`).
-/

namespace Lossless.Parse

variable {c : Catalog} {v : Json} {file : String} {source : Text} {s s' : Supply} {n : Node}

/-- What stands at a place is the slice of the source there, as long as it is wide. -/
theorem slice?_of_stands {K : Kind → Prop} {p : Nat × Node} (h : Node.Stands K source p) :
    p.1 + p.2.width ≤ source.length ∧
      source.slice? p.1 (p.1 + p.2.width) = some p.2.fullText := by
  obtain ⟨hs, hat⟩ := h
  rw [hs.width_eq]
  exact ⟨(Text.at_iff.mp hat).1, hat⟩

/-- Every node of a tree that is built is sound, with kinds of the catalog, and stands at its
place. -/
theorem fromJson_stands {offset : Int} (h : fromJson c v file offset source s = .ok (n, s')) :
    ∀ p ∈ n.placed offset.toNat, Node.Stands (· ∈ c.kinds) source p := by
  obtain ⟨ho, d, -, hreal⟩ := fromJson_realizes h
  have hat := hreal.reads.at_flatten (show offset.toNat ≤ source.length by omega)
  rw [Node.flatten_leaves] at hat
  exact hreal.sound.placed hat

theorem fromJson_sound {offset : Int} (h : fromJson c v file offset source s = .ok (n, s')) :
    n.Sound (· ∈ c.kinds) :=
  (fromJson_stands h _ (Node.mem_placed _ n)).1

theorem fromDecoded_eq_ok_iff :
    fromDecoded c v source file s = .ok (n, s') ↔
      fromJson c v file 0 source s = .ok (n, s') ∧ n.width = source.length := by
  rw [fromDecoded, Make.bind_eq_ok]
  constructor
  · rintro ⟨root, s₁, hroot, h⟩
    split at h
    · next hw => cases h; exact ⟨hroot, hw⟩
    · cases h
  · rintro ⟨h, hw⟩
    exact ⟨n, s', h, by rw [if_pos hw]; rfl⟩

/-- A tree that covers its source has the source for its text. -/
theorem fromDecoded_fullText (h : fromDecoded c v source file s = .ok (n, s')) :
    n.fullText = source := by
  obtain ⟨hn, hw⟩ := fromDecoded_eq_ok_iff.mp h
  have hslice := (slice?_of_stands (fromJson_stands hn _ (Node.mem_placed _ n))).2
  rw [hw] at hslice
  simpa [Text.slice?] using hslice.symm

end Lossless.Parse
