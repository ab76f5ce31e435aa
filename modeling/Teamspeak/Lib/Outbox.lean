import Teamspeak.Lib.InsertionMap
import Teamspeak.Lib.Log

/-!
# Outboxes

A sender keeps what it sent, under a tag, until an acknowledgement names the
tag.  Its log says what went out and what was acknowledged.  Tags come from a
finite supply and are used again.

* `Remembers R m l`: everything sent has been acknowledged since, or is kept.
* `Unreused l`: a tag is used again only once all that went out under it has been
  acknowledged.
* `Remembers.sent`, `Remembers.acked`, `Remembers.update`: what sending, an
  acknowledgement and a change of what is kept do.  Sending is where a tag that
  is still in use would cost an entry.
-/

namespace Teamspeak.Outbox

open Log

/-- An entry of a sender's log. -/
inductive Entry (κ α : Type*)
  | sent (tag : κ) (a : α)
  | acked (tag : κ)
  deriving DecidableEq

variable {κ α β : Type*} {l l' : List (Entry κ α)}

/-- All that went out under a tag has been acknowledged since. -/
def Answered (tag : κ) (l : List (Entry κ α)) : Prop :=
  ∀ pre a post, l = pre ++ .sent tag a :: post → .acked tag ∈ post

/-- A tag is used again only once all that went out under it has been acknowledged. -/
def Unreused (l : List (Entry κ α)) : Prop :=
  Founded (fun pre o => ∀ tag a, o = .sent tag a → Answered tag pre) l

theorem Unreused.answered {tag : κ} {a : α} (h : Unreused (l ++ [.sent tag a])) :
    Answered tag l := h l _ [] rfl tag a rfl

/-- The tag something went out under. -/
def Entry.sentTag : Entry κ α → Option κ
  | .sent tag _ => some tag
  | .acked _ => none

/-- Tags that are all different are not used again. -/
theorem unreused_of_nodup (h : (l.filterMap Entry.sentTag).Nodup) : Unreused l := by
  intro pre o post hl tag a ho pre' a' mid hpre
  subst hl ho hpre
  simp only [List.filterMap_append, List.filterMap_cons, Entry.sentTag] at h
  have hdisjoint := (List.nodup_append'.mp h).2.2
  refine absurd ?_ (hdisjoint (a := tag) ?_)
  · exact List.mem_cons_self
  · exact List.mem_append_right _ List.mem_cons_self

variable [DecidableEq κ] {R : β → α → Prop} {m : InsertionMap κ β}

/-- Everything sent has been acknowledged since, or is kept under its tag. -/
def Remembers (R : β → α → Prop) (m : InsertionMap κ β) (l : List (Entry κ α)) : Prop :=
  ∀ pre tag a post, l = pre ++ .sent tag a :: post →
    .acked tag ∈ post ∨ ∃ b, m.get? tag = some b ∧ R b a

theorem Remembers.nil (R : β → α → Prop) (m : InsertionMap κ β) : Remembers R m [] := by
  intro pre tag a post h
  exact absurd h.symm (List.append_ne_nil_of_right_ne_nil _ (List.cons_ne_nil _ _))

/-- Sending keeps every entry, as long as the tag is not in use. -/
theorem Remembers.sent (h : Remembers R m l) {tag : κ} {a : α} {b : β} (hb : R b a)
    (hanswered : Answered tag l) : Remembers R (m.set tag b) (l ++ [.sent tag a]) := by
  intro pre tag' a' post hl
  rcases place_append hl with ⟨mid, hmid, rfl⟩ | ⟨mid, hmid, rfl⟩
  · by_cases htag : tag = tag'
    · subst htag
      exact Or.inl (List.mem_append_left _ (hanswered pre a' mid hmid))
    · rcases h pre tag' a' mid hmid with hacked | hkept
      · exact Or.inl (List.mem_append_left _ hacked)
      · refine Or.inr ?_
        rwa [InsertionMap.get?_set_ne _ _ htag]
  · cases mid with
    | nil =>
      rw [List.nil_append, List.cons.injEq, Entry.sent.injEq] at hmid
      obtain ⟨⟨rfl, rfl⟩, -⟩ := hmid
      exact Or.inr ⟨b, InsertionMap.get?_set_self _ _ _, hb⟩
    | cons o mid =>
      rw [List.cons_append, List.cons.injEq] at hmid
      exact absurd hmid.2.symm (List.append_ne_nil_of_right_ne_nil _ (List.cons_ne_nil _ _))

/-- An acknowledgement costs only what it names. -/
theorem Remembers.acked (h : Remembers R m l) (tag : κ) :
    Remembers R (m.delete tag) (l ++ [.acked tag]) := by
  intro pre tag' a post hl
  rcases place_append hl with ⟨mid, hmid, rfl⟩ | ⟨mid, hmid, rfl⟩
  · by_cases htag : tag = tag'
    · subst htag
      exact Or.inl (List.mem_append_right _ List.mem_cons_self)
    · rcases h pre tag' a mid hmid with hacked | hkept
      · exact Or.inl (List.mem_append_left _ hacked)
      · refine Or.inr ?_
        rwa [InsertionMap.get?_delete_ne _ htag]
  · have hmem : Entry.sent tag' a ∈ [Entry.acked tag] := by
      rw [hmid]
      exact List.mem_append_right _ List.mem_cons_self
    exact absurd (List.mem_singleton.mp hmem) (by simp)

/-- What is kept may change, as long as it stands for the same. -/
theorem Remembers.update (h : Remembers R m l) {tag : κ} {b b' : β} (hget : m.get? tag = some b)
    (hsame : ∀ a, R b a → R b' a) : Remembers R (m.set tag b') l := by
  intro pre tag' a post hl
  rcases h pre tag' a post hl with hacked | ⟨c, hc, hR⟩
  · exact Or.inl hacked
  · by_cases htag : tag = tag'
    · subst htag
      obtain rfl := Option.some.inj (hget.symm.trans hc)
      exact Or.inr ⟨b', InsertionMap.get?_set_self _ _ _, hsame a hR⟩
    · refine Or.inr ⟨c, ?_, hR⟩
      rwa [InsertionMap.get?_set_ne _ _ htag]

end Teamspeak.Outbox
