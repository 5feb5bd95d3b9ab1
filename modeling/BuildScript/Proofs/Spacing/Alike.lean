import Mathlib
import BuildScript.Proofs.Spacing.Members

/-!
Bodies that are read alike: the same stands on their lines but for the bodies that are declared there,
which are again read alike. Idle lines in places that do not matter make such bodies. A sight can take
the bodies for the same that are read alike.
-/

namespace BuildScript

open Text (SourceLine)

/-- Class bodies with the same entries but for the bodies of methods, which `B` compares. -/
def SameMembers (B : List SourceLine → List SourceLine → Prop) (body body' : List SourceLine) :
    Prop :=
  List.Forall₂ (ClassEntry.Alike B) (ClassEntry.ofLines body) (ClassEntry.ofLines body')

/-- Lines on which the same stands but for the bodies declared there, which `B` compares. -/
def SameScript (B : List SourceLine → List SourceLine → Prop) (body body' : List SourceLine) :
    Prop :=
  List.Forall₂ (ScriptLine.Alike B (SameMembers B)) (Script.ofLines body).occupied
    (Script.ofLines body').occupied

/-- Bodies related in this way hold the same, and it is the same to read them: what they declare is
related in the same way. -/
structure Bisimulation (B : List SourceLine → List SourceLine → Prop) : Prop where
  bare : ∀ {body body'}, B body body' → bare body = bare body'
  script : ∀ {body body'}, B body body' → SameScript B body body'

/-- Bodies that are read alike, and so are the bodies declared in them, however deep. -/
def ReadsAlike (body body' : List SourceLine) : Prop := ∃ B, Bisimulation B ∧ B body body'

/-- Idle lines were put into a body of this kind, none of them right after a line that goes on or
between a header and its brace. -/
def SpacedOut (kind : BodyKind) (body body' : List SourceLine) : Prop :=
  ∃ shut, Widened shut body body' ∧ ∀ number, HangingBrace kind body number → shut number

variable {B B' C C' : List SourceLine → List SourceLine → Prop} {body body' : List SourceLine}

/-! Relations between what is read follow those between bodies. -/

namespace Item.Alike

variable {item item' item'' : Item}

theorem imp (h : Item.Alike B C item item')
    (hB : ∀ {header body body'}, item = .declaration header (.ok body) →
      (∀ name, header ≠ .classNamed name) → B body body' → B' body body')
    (hC : ∀ {name body body'}, item = .declaration (.classNamed name) (.ok body) →
      C body body' → C' body body') : Item.Alike B' C' item item' := by
  cases h with
  | same item hitem => exact .same item hitem
  | body header hheader h => exact .body header hheader (hB rfl hheader h)
  | classBody name h => exact .classBody name (hC rfl h)

theorem flip (h : Item.Alike B C item item') : Item.Alike (flip B) (flip C) item' item := by
  cases h with
  | same item hitem => exact .same item hitem
  | body header hheader h => exact .body header hheader h
  | classBody name h => exact .classBody name h

theorem comp (h : Item.Alike B C item item') (h' : Item.Alike B' C' item' item'') :
    Item.Alike (Relation.Comp B B') (Relation.Comp C C') item item'' := by
  cases h with
  | same item hitem =>
    cases h' with
    | same => exact .same _ hitem
    | body header => exact absurd rfl (hitem header _)
    | classBody name => exact absurd rfl (hitem (.classNamed name) _)
  | body header hheader h =>
    cases h' with
    | same _ hitem => exact absurd rfl (hitem header _)
    | body _ _ h' => exact .body header hheader ⟨_, h, h'⟩
    | classBody name => exact absurd rfl (hheader name)
  | classBody name h =>
    cases h' with
    | same _ hitem => exact absurd rfl (hitem (.classNamed name) _)
    | body _ hheader => exact absurd rfl (hheader name)
    | classBody _ h' => exact .classBody name ⟨_, h, h'⟩

end Item.Alike

/-- One relation after another, item by item. -/
theorem forall₂_comp {α : Type} {R S T : α → α → Prop} {as bs cs : List α}
    (hcomp : ∀ {a b c}, R a b → S b c → T a c) (h : List.Forall₂ R as bs)
    (h' : List.Forall₂ S bs cs) : List.Forall₂ T as cs := by
  induction h generalizing cs with
  | nil =>
    cases h'
    exact .nil
  | cons hab _ ih =>
    obtain _ | ⟨hbc, hrest⟩ := h'
    exact .cons (hcomp hab hbc) (ih hrest)

theorem ClassEntry.Alike.flip {entry entry' : ClassEntry} (h : entry.Alike B entry') :
    entry'.Alike (flip B) entry := by
  cases h with
  | error number number' e => exact .error number' number e
  | field number number' type name => exact .field number' number type name
  | method number number' signature h => exact .method number' number signature h

theorem ClassEntry.Alike.comp {entry entry' entry'' : ClassEntry} (h : entry.Alike B entry')
    (h' : entry'.Alike B' entry'') : entry.Alike (Relation.Comp B B') entry'' := by
  cases h with
  | error number _ e =>
    cases h' with
    | error _ number' => exact .error number number' e
  | field number _ type name =>
    cases h' with
    | field _ number' => exact .field number number' type name
  | method number _ signature h =>
    cases h' with
    | method _ number' _ h' => exact .method number number' signature ⟨_, h, h'⟩

theorem ClassEntry.Alike.imp {entry entry' : ClassEntry} (h : entry.Alike B entry')
    (hB : ∀ {signature body body'}, entry.entry = .ok (.method signature body) →
      B body body' → B' body body') : entry.Alike B' entry' := by
  cases h with
  | error number number' e => exact .error number number' e
  | field number number' type name => exact .field number number' type name
  | method number number' signature h => exact .method number number' signature (hB rfl h)

theorem SameMembers.mono (h : SameMembers B body body')
    (hB : ∀ {body body'}, B body body' → B' body body') : SameMembers B' body body' :=
  List.Forall₂.imp (fun _ _ h => h.imp fun _ => hB) h

theorem SameScript.mono (h : SameScript B body body')
    (hB : ∀ {body body'}, B body body' → B' body body') : SameScript B' body body' := by
  refine List.Forall₂.imp (fun line line' h => ?_) h
  cases h with
  | error number number' e => exact .error number number' e
  | items number number' hitems =>
    exact .items number number'
      (hitems.imp fun _ _ h => h.imp (fun _ _ => hB) fun _ h => h.mono hB)

/-! The three properties that make reading alike an equivalence. -/

theorem SameMembers.refl (hB : ∀ body, B body body) (body : List SourceLine) :
    SameMembers B body body := by
  refine List.forall₂_same.mpr fun entry _ => ?_
  obtain ⟨number, e | ⟨⟨type, name⟩ | ⟨signature, body⟩⟩⟩ := entry
  · exact .error number number e
  · exact .field number number type name
  · exact .method number number signature (hB body)

theorem SameScript.refl (hB : ∀ body, B body body) (body : List SourceLine) :
    SameScript B body body := by
  refine List.forall₂_same.mpr fun line _ => ?_
  obtain ⟨number, e | items⟩ := line
  · exact .error number number e
  · refine .items number number (List.forall₂_same.mpr fun item _ => ?_)
    exact .self (fun _ body _ _ => hB body) fun _ body _ => .refl hB body

theorem SameMembers.flip (h : SameMembers B body body') : SameMembers (flip B) body' body :=
  List.Forall₂.flip (h.imp fun _ _ h => h.flip)

theorem SameScript.flip (h : SameScript B body body') : SameScript (flip B) body' body := by
  refine List.Forall₂.flip (List.Forall₂.imp (fun line line' h => ?_) h)
  cases h with
  | error number number' e => exact .error number' number e
  | items number number' hitems =>
    refine .items number' number (List.Forall₂.flip (hitems.imp fun _ _ h => ?_))
    exact h.flip.imp (fun _ _ h => h) fun _ h => SameMembers.flip h

theorem SameMembers.comp {body'' : List SourceLine} (h : SameMembers B body body')
    (h' : SameMembers B' body' body'') : SameMembers (Relation.Comp B B') body body'' :=
  forall₂_comp (fun h h' => h.comp h') h h'

theorem SameScript.comp {body'' : List SourceLine} (h : SameScript B body body')
    (h' : SameScript B' body' body'') : SameScript (Relation.Comp B B') body body'' := by
  refine forall₂_comp (fun {line line' line''} h h' => ?_) h h'
  cases h with
  | error number _ e =>
    cases h' with
    | error _ number' => exact .error number number' e
  | items number _ hitems =>
    cases h' with
    | items _ number' hitems' =>
      refine .items number number' (forall₂_comp (fun h h' => ?_) hitems hitems')
      exact (h.comp h').imp (fun _ _ h => h) fun _ ⟨_, h, h'⟩ => SameMembers.comp h h'

namespace ReadsAlike

theorem refl (body : List SourceLine) : ReadsAlike body body :=
  ⟨Eq, ⟨fun h => h ▸ rfl, fun h => h ▸ .refl (fun _ => rfl) _⟩, rfl⟩

theorem symm (h : ReadsAlike body body') : ReadsAlike body' body := by
  obtain ⟨B, hB, h⟩ := h
  exact ⟨flip B, ⟨fun h => (hB.bare h).symm, fun h => (hB.script h).flip⟩, h⟩

theorem trans {body'' : List SourceLine} (h : ReadsAlike body body') (h' : ReadsAlike body' body'') :
    ReadsAlike body body'' := by
  obtain ⟨B, hB, h⟩ := h
  obtain ⟨B', hB', h'⟩ := h'
  refine ⟨Relation.Comp B B', ⟨?_, ?_⟩, body', h, h'⟩
  · rintro _ _ ⟨_, h, h'⟩
    exact (hB.bare h).trans (hB'.bare h')
  · rintro _ _ ⟨_, h, h'⟩
    exact (hB.script h).comp (hB'.script h')

theorem bare_eq (h : ReadsAlike body body') : bare body = bare body' := by
  obtain ⟨B, hB, h⟩ := h
  exact hB.bare h

theorem script (h : ReadsAlike body body') : SameScript ReadsAlike body body' := by
  obtain ⟨B, hB, h⟩ := h
  exact (hB.script h).mono fun h => ⟨B, hB, h⟩

end ReadsAlike

/-! Idle lines in places that do not matter. -/

/-- What holds of the elements of the first list may be used of each. -/
theorem forall₂_imp_mem {α : Type} {R S : α → α → Prop} {as bs : List α}
    (h : List.Forall₂ R as bs) (himp : ∀ a ∈ as, ∀ b, R a b → S a b) : List.Forall₂ S as bs :=
  ((List.forall₂_and_left as bs).mpr ⟨fun _ h => h, h⟩).imp fun a b hab => himp a hab.1 b hab.2

namespace SpacedOut

/-- The bodies of methods are spaced out. -/
theorem members (h : SpacedOut .members body body') :
    SameMembers (SpacedOut .statements) body body' := by
  obtain ⟨shut, hwidened, hshut⟩ := h
  refine forall₂_imp_mem (ClassEntry.ofLines_spaced hwidened hshut) fun entry hentry entry' h => ?_
  obtain ⟨number, entry⟩ := entry
  refine h.imp fun {signature inner inner'} hmethod hinner => ⟨shut, hinner, fun brace hbrace => ?_⟩
  dsimp only at hmethod
  subst hmethod
  exact hshut brace (.inside (.method hentry) hbrace)

/-- So are the bodies that a script declares. -/
theorem script (h : SpacedOut .statements body body') :
    List.Forall₂ (ScriptLine.Alike (SpacedOut .statements) (SpacedOut .members))
      (Script.ofLines body).occupied (Script.ofLines body').occupied := by
  obtain ⟨shut, hwidened, hshut⟩ := h
  refine forall₂_imp_mem (Script.ofLines_spaced hwidened hshut) fun line hline line' h => ?_
  have hline := List.mem_of_mem_filter hline
  cases h with
  | error number number' e => exact .error number number' e
  | items number number' hitems =>
    have hinside {header : Header} {inner : List SourceLine} {items : List Item}
        (hline : ⟨number, .ok items⟩ ∈ Script.ofLines body)
        (hitem : .declaration header (.ok inner) ∈ items) (brace : Nat)
        (hbrace : HangingBrace header.kind inner brace) : shut brace :=
      hshut brace (.inside (.declaration hline hitem) hbrace)
    refine .items number number' (forall₂_imp_mem hitems fun item hitem item' h => ?_)
    refine h.imp (fun {header inner inner'} heq hheader hinner => ⟨shut, hinner, ?_⟩)
      fun {name inner inner'} heq hinner => ⟨shut, hinner, ?_⟩
    · subst heq
      have hkind : header.kind = .statements := by
        cases header with
        | classNamed name => exact absurd rfl (hheader name)
        | _ => rfl
      exact fun brace hbrace => hinside hline hitem brace (hkind.symm ▸ hbrace)
    · subst heq
      exact hinside hline hitem

theorem bisimulation : Bisimulation (SpacedOut .statements) where
  bare := fun ⟨_, h, _⟩ => h.bare_eq
  script := by
    intro body body' h
    refine h.script.imp fun line line' h => ?_
    cases h with
    | error number number' e => exact .error number number' e
    | items number number' hitems =>
      exact .items number number' (hitems.imp fun _ _ h => h.imp (fun _ _ h => h) fun _ h => h.members)

/-- Idle lines do not show where they do not matter. -/
theorem readsAlike (h : SpacedOut .statements body body') : ReadsAlike body body' :=
  ⟨_, bisimulation, h⟩

end SpacedOut

/-! The sight of what is read. -/

def ReadsAlike.setoid : Setoid (List SourceLine) where
  r := ReadsAlike
  iseqv := ⟨ReadsAlike.refl, ReadsAlike.symm, ReadsAlike.trans⟩

/-- One of the bodies that are read like the given one, the same for all of them. -/
noncomputable def representative : Recast :=
  fun _ body => (Quotient.mk ReadsAlike.setoid body).out

/-- Bodies are taken for the same that are read alike. -/
noncomputable def Sight.reading : Sight := ⟨representative, representative⟩

namespace Sight

theorem reading_same {file : String} :
    reading.left file body = reading.right file body' ↔ ReadsAlike body body' :=
  Quotient.out_inj.trans Quotient.eq

/-- Bodies that are read alike hold the same. -/
theorem reading_le : reading ≤ ⟨fun _ => bare, fun _ => bare⟩ := by
  have hbare : (fun _ => bare : Recast) = Recast.after (fun _ => bare) representative := by
    funext file body
    have halike : ReadsAlike (representative file body) body :=
      @Quotient.mk_out _ ReadsAlike.setoid body
    exact halike.bare_eq.symm
  exact ⟨fun _ => bare, hbare, hbare⟩

end Sight

end BuildScript
