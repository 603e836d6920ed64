import Metamodel.Arena
import Metamodel.Definition
import Metamodel.NameSet

/-!
# Metamodel.ResolvedType

Definitions together with what resolution computes about them.

`ResolvedType δ ε` holds a definition `δ` of a specialisation hierarchy, its subtypes and the
attributes it has and inherits, and the applicability `ε` of its category. The definition itself
is never changed.
-/

namespace Metamodel

structure ResolvedType (δ ε : Type) where
  definition : δ
  /-- Types that name this one as their supertype. -/
  directSubtypes : NameSet := ∅
  /-- Types whose supertype chain passes through this one. -/
  subtypes : NameSet := ∅
  /-- Attributes of the ancestors, the root-most first, then the type's own. -/
  attributes : List AttributeDef := []
  applicability : ε

namespace ResolvedType

variable {δ ε : Type}

/-- Nothing computed yet. -/
def ofDefinition [EmptyCollection ε] (d : δ) : ResolvedType δ ε :=
  { definition := d, applicability := ∅ }

def name [SupertypedDef δ] (d : ResolvedType δ ε) : String := SupertypedDef.name d.definition

def supertype [SupertypedDef δ] (d : ResolvedType δ ε) : Option TypeLink :=
  SupertypedDef.supertype d.definition

/-- Name of the supertype, if there is a link and it carries one. -/
def supertypeName? [SupertypedDef δ] (d : ResolvedType δ ε) : Option String :=
  d.supertype.bind TypeLink.target?

def ownAttributes [SupertypedDef δ] (d : ResolvedType δ ε) : List AttributeDef :=
  SupertypedDef.attributes d.definition

/-- Record a subtype; a direct one is a subtype too. -/
def addSubtype (d : ResolvedType δ ε) (name : String) (direct : Bool) : ResolvedType δ ε :=
  { d with
    directSubtypes := if direct then d.directSubtypes.insert name else d.directSubtypes
    subtypes := d.subtypes.insert name }

def setAttributes (d : ResolvedType δ ε) (as : List AttributeDef) : ResolvedType δ ε :=
  { d with attributes := as }

end ResolvedType

/-- Relationships and classifications of an entity type. The effective sets hold what is declared
on the type itself and what comes down from its supertypes. -/
structure EntityApplicability where
  directRelationships : NameSet := ∅
  relationships : NameSet := ∅
  directClassifications : NameSet := ∅
  classifications : NameSet := ∅
deriving DecidableEq

instance : EmptyCollection EntityApplicability := ⟨{}⟩

abbrev ResolvedEntity := ResolvedType EntityDef EntityApplicability

/-- The applicability of a classification is the set of entity types it is valid for. -/
abbrev ResolvedClassification := ResolvedType ClassificationDef NameSet

namespace ResolvedEntity

def addDirectRelationship (name : String) (d : ResolvedEntity) : ResolvedEntity :=
  { d with applicability.directRelationships := d.applicability.directRelationships.insert name }

def addRelationship (name : String) (d : ResolvedEntity) : ResolvedEntity :=
  { d with applicability.relationships := d.applicability.relationships.insert name }

def addDirectClassification (name : String) (d : ResolvedEntity) : ResolvedEntity :=
  { d with
    applicability.directClassifications := d.applicability.directClassifications.insert name }

def addClassification (name : String) (d : ResolvedEntity) : ResolvedEntity :=
  { d with applicability.classifications := d.applicability.classifications.insert name }

end ResolvedEntity

namespace ResolvedClassification

/-- Entity types the classification may be attached to, declared ones and their subtypes. -/
def validEntities (d : ResolvedClassification) : NameSet := d.applicability

def addValidEntities (names : List String) (d : ResolvedClassification) : ResolvedClassification :=
  { d with applicability := d.applicability.insertAll names }

end ResolvedClassification

end Metamodel
