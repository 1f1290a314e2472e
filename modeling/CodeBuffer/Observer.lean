import CodeBuffer.Document.Basic

namespace CodeBuffer

/-- Something that watches the edits of a buffer and may put tags on its document. Every call
comes after the edit it tells of. -/
class Observer (H : Type) where
  attach : H → Document → H × Document
  detach : H → Document → H × Document
  textInserted : H → Document → (offset length : Nat) → H × Document
  textDeleted : H → Document → (offset length : Nat) → H × Document
  schemeChanged : H → Document → H × Document := fun h d => (h, d)
  syncTags : H → Document → H × Document := fun h d => (h, d)
  updateHighlight : H → Document → (start stop : Nat) → (synchronous : Bool) → H × Document :=
    fun h d _ _ _ => (h, d)
  hasPendingWork : H → Bool := fun _ => false
  /-- Does a piece of the deferred work and tells whether more is left. -/
  runIdleSlice : H → Document → Bool × H × Document := fun h d => (false, h, d)

/-- The observer that ignores everything. -/
structure PlainText where
  deriving DecidableEq, Repr

instance : Observer PlainText where
  attach h d := (h, d)
  detach h d := (h, d)
  textInserted h d _ _ := (h, d)
  textDeleted h d _ _ := (h, d)

end CodeBuffer
