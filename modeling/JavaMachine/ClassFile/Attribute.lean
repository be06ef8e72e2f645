/-!
Attributes of classes, fields, methods and code.

The attributes that the machine reads are decoded; any other one is kept as the bytes it holds, so
that a class is written back as it was read. A code attribute carries attributes of its own.
-/

namespace JavaMachine

/-- A row of a handler table; catch type 0 catches everything. -/
structure HandlerEntry where
  startPc : UInt16
  endPc : UInt16
  handlerPc : UInt16
  catchType : UInt16
  deriving DecidableEq, Repr, Inhabited

/-- The source line of the code from `startPc` on. -/
structure LineEntry where
  startPc : UInt16
  line : UInt16
  deriving DecidableEq, Repr, Inhabited

/-- Types of the verifier. -/
inductive VerificationType where
  | top | integer | float | double | long | null | uninitializedThis
  | object (poolIndex : UInt16)
  | uninitialized (offset : UInt16)
  deriving DecidableEq, Repr, Inhabited

/-- A frame of a stack map. The frame types 0 to 63, 64 to 127, 248 to 250 and 252 to 254 are kinds of
frames by range, so those frames keep theirs. -/
inductive StackMapFrame where
  | same (frameType : UInt8)
  | sameOneItem (frameType : UInt8) (stack : VerificationType)
  | sameOneItemExtended (offsetDelta : UInt16) (stack : VerificationType)
  | chop (frameType : UInt8) (offsetDelta : UInt16)
  | sameExtended (offsetDelta : UInt16)
  | append (frameType : UInt8) (offsetDelta : UInt16) (locals : List VerificationType)
  | full (offsetDelta : UInt16) (locals stack : List VerificationType)
  deriving DecidableEq, Repr, Inhabited

/-- What an attribute without attributes of its own holds. -/
inductive AttributeContent where
  | constantValue (valueIndex : UInt16)
  | sourceFile (fileIndex : UInt16)
  | exceptions (classIndices : List UInt16)
  | stackMapTable (frames : List StackMapFrame)
  | lineNumberTable (lines : List LineEntry)
  /-- The bytes of any attribute that is kept as it is. -/
  | other (info : List UInt8)
  deriving DecidableEq, Repr, Inhabited

/-- An attribute with the pool index of its name. -/
inductive Attribute where
  | code (nameIndex maxStack maxLocals : UInt16) (code : List UInt8)
      (handlers : List HandlerEntry) (attributes : List Attribute)
  | leaf (nameIndex : UInt16) (content : AttributeContent)
  deriving Repr, Inhabited

namespace Attribute

mutual

/-- Equality of attributes is decided by their fields. -/
def decEq : (a b : Attribute) → Decidable (a = b)
  | code n s l c h as, code n' s' l' c' h' as' =>
    match decEqList as as' with
    | isTrue hn =>
      if ha : n = n' ∧ s = s' ∧ l = l' ∧ c = c' ∧ h = h' then
        isTrue (by obtain ⟨rfl, rfl, rfl, rfl, rfl⟩ := ha; rw [hn])
      else isFalse (by intro e; cases e; exact ha ⟨rfl, rfl, rfl, rfl, rfl⟩)
    | isFalse hn => isFalse (by intro e; cases e; exact hn rfl)
  | leaf n c, leaf n' c' => decidable_of_iff (n = n' ∧ c = c') (by simp)
  | code .., leaf .. => isFalse (by intro e; cases e)
  | leaf .., code .. => isFalse (by intro e; cases e)

/-- Equality of attribute lists is decided element by element. -/
def decEqList : (as bs : List Attribute) → Decidable (as = bs)
  | [], [] => isTrue rfl
  | [], _ :: _ => isFalse (by intro e; cases e)
  | _ :: _, [] => isFalse (by intro e; cases e)
  | a :: as, b :: bs =>
    match decEq a b, decEqList as bs with
    | isTrue h, isTrue hs => isTrue (by rw [h, hs])
    | isFalse h, _ => isFalse (by intro e; cases e; exact h rfl)
    | _, isFalse hs => isFalse (by intro e; cases e; exact hs rfl)

end

instance : DecidableEq Attribute := decEq

/-- The pool index of the attribute's name. -/
def nameIndex : Attribute → UInt16
  | code n .. | leaf n _ => n

end Attribute

end JavaMachine
