import Modulation.Proofs.Config.Page
import Modulation.Proofs.Provider.Offer

set_option autoImplicit false

/-! # Provider sections on a page

A provider that is written has its tag as its only key, and different names for its parts. The
lemmas below say that a page leaves such a section readable: the tag is chosen, and each part is
found under its name. -/

namespace Modulation

open Modulation.Config

variable {α β κ : Type} {page : Value α → Value α} {rows : Section α → Section α}

section Choice

variable {ofTag? : String → Option κ} {kind : κ} {tag : String}

theorem chooseTag_page (hpage : Keeps page rows) (h : ofTag? tag = some kind) (value : Value α) :
    chooseTag ofTag? (rows [(tag, value)]) = .ok (kind, tag, page value) := by
  rw [hpage.single]
  exact chooseTag_singleton h _

theorem chooseTag_page_table (hpage : Keeps page rows) (h : ofTag? tag = some kind)
    (body : Section α) :
    chooseTag ofTag? (rows [(tag, .table body)]) = .ok (kind, tag, .table (rows body)) := by
  rw [chooseTag_page hpage h, hpage.table]

end Choice

section Parts

variable {read : Value α → Reader β} {body : Section α} {key : String}

/-- What stands under a name is read as it is read on the page by itself. -/
theorem holdsAt_page (hpage : Keeps page rows) (distinct : body.Distinct) {value : Value α} {x : β}
    (hvalue : body.get? key = some value) (hreads : Reads read (page value) x) :
    HoldsAt read (rows body) key x := by
  refine ⟨page value, ?_, hreads⟩
  rw [hpage.get? distinct, hvalue]
  rfl

theorem readNumber?_page [Numeric α] (hpage : Keeps page rows) (distinct : body.Distinct) {x : α}
    (h : body.get? key = some (.float x)) (path : String) :
    readNumber? (rows body) key path = .ok (some x) := by
  have hvalue : (rows body).get? key = some (.float x) := by
    rw [hpage.get? distinct, h, Option.map_some, hpage.float]
  unfold readNumber?
  rw [hvalue]
  rfl

theorem readInitialProgress_page [Numeric α] (hpage : Keeps page rows) (distinct : body.Distinct)
    {x : α} (h : body.get? "initialProgress" = some (.float x)) (path : String) :
    readInitialProgress (rows body) path = .ok (Numeric.abs x) := by
  rw [readInitialProgress, readNumber?_page hpage distinct h]
  rfl

end Parts

end Modulation
