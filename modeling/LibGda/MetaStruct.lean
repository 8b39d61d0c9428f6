import LibGda.PassSort

/-! The objects of a `GdaMetaStruct`: tables and views, and their foreign keys. -/

namespace LibGda

inductive GdaMetaDbObjectType where
  | unknown
  | table
  | view
  deriving DecidableEq

structure ObjectName where
  catalog : String
  schema : String
  name : String
  deriving DecidableEq

def ObjectName.key (n : ObjectName) : String := n.catalog ++ "." ++ n.schema ++ "." ++ n.name

abbrev DbObjectPtr := Nat

abbrev ForeignKeyPtr := Nat

structure ForeignKeyColumn where
  fkCol : Int
  fkName : String
  refPkCol : Int
  refPkName : String
  deriving DecidableEq

structure GdaMetaTableForeignKey where
  metaTable : DbObjectPtr
  dependOn : DbObjectPtr
  fkName : String
  cols : List ForeignKeyColumn := []
  declared : Bool := false
  deriving DecidableEq

structure GdaMetaDbObject where
  objType : GdaMetaDbObjectType := .unknown
  objName : ObjectName
  dependList : List DbObjectPtr := []
  /-- the names of the columns of a table or a view -/
  columns : List String := []
  fkList : List ForeignKeyPtr := []
  reverseFkList : List ForeignKeyPtr := []
  deriving DecidableEq

structure GdaMetaStruct where
  dbObjects : List DbObjectPtr := []
  index : String → Option DbObjectPtr := fun _ => none
  object : DbObjectPtr → GdaMetaDbObject := fun _ => { objName := ⟨"", "", ""⟩ }
  foreignKey : ForeignKeyPtr → GdaMetaTableForeignKey :=
    fun _ => { metaTable := 0, dependOn := 0, fkName := "" }
  nextObject : DbObjectPtr := 0
  nextForeignKey : ForeignKeyPtr := 0

end LibGda

/-! `gda_meta_struct_sort_db_objects` with `GDA_META_SORT_DEPENDENCIES`. -/

namespace LibGda

open PassSort Relation

namespace GdaMetaStruct

def dependList (mstruct : GdaMetaStruct) (dbo : DbObjectPtr) : List DbObjectPtr :=
  (mstruct.object dbo).dependList

def buildPass (mstruct : GdaMetaStruct) (orderedList : List DbObjectPtr) : List DbObjectPtr :=
  pass mstruct.dependList mstruct.dbObjects orderedList

def orderedFrom (mstruct : GdaMetaStruct) (orderedList : List DbObjectPtr) : List DbObjectPtr :=
  sortFrom mstruct.dependList mstruct.dbObjects orderedList

def sortDbObjects (mstruct : GdaMetaStruct) : GdaMetaStruct :=
  { mstruct with dbObjects := mstruct.orderedFrom [] }

theorem orderedFrom_eq (mstruct : GdaMetaStruct) (orderedList : List DbObjectPtr) :
    mstruct.orderedFrom orderedList =
      if mstruct.buildPass orderedList = [] then orderedList
      else mstruct.orderedFrom (orderedList ++ mstruct.buildPass orderedList) := by
  rw [orderedFrom, sortFrom]
  rfl

def AfterDependencies (mstruct sorted : GdaMetaStruct) : Prop :=
  ∀ dbo ∈ mstruct.dbObjects, ¬ OnCycle mstruct.dependList dbo →
    ∀ before behind, sorted.dbObjects = before ++ dbo :: behind →
      ∀ d ∈ mstruct.dependList dbo, d ∈ before

/-- All the objects which another one depends on are in the list, and it does not depend on a
cycle of them. -/
def HasOrder (mstruct : GdaMetaStruct) (dbo : DbObjectPtr) : Prop :=
  (∀ d, ReflTransGen (DependsOn mstruct.dependList) dbo d → d ∈ mstruct.dbObjects) ∧
    ¬ OnCycle mstruct.dependList dbo

/-- No object is lost only if each one has a place in the order. -/
theorem sortDbObjects_iff (mstruct : GdaMetaStruct) :
    mstruct.sortDbObjects.dbObjects.Perm mstruct.dbObjects ∧
        AfterDependencies mstruct mstruct.sortDbObjects ↔
      ∀ dbo ∈ mstruct.dbObjects, mstruct.HasOrder dbo := by
  have hafter : AfterDependencies mstruct mstruct.sortDbObjects := by
    intro dbo _ _ before behind heq
    exact sort_after heq
  have hperm : mstruct.sortDbObjects.dbObjects.Perm mstruct.dbObjects ↔
      ∀ dbo ∈ mstruct.dbObjects, mstruct.HasOrder dbo := by
    refine sort_perm_iff.trans (forall₂_congr fun dbo _ => ?_)
    exact placeable_iff
  rw [and_iff_left hafter]
  exact hperm

def tableCycle : GdaMetaStruct where
  dbObjects := [0, 1]
  object dbo := { objType := .table, objName := ⟨"main", "main", toString dbo⟩, dependList := [1 - dbo] }
  nextObject := 2

theorem tableCycle_lost : ¬ ∀ mstruct : GdaMetaStruct,
    mstruct.sortDbObjects.dbObjects.Perm mstruct.dbObjects := by
  intro h
  have hempty : tableCycle.sortDbObjects.dbObjects = [] := by
    show tableCycle.orderedFrom [] = []
    rw [orderedFrom_eq]
    exact if_pos (by decide)
  have hperm := h tableCycle
  rw [hempty] at hperm
  exact absurd hperm.symm.eq_nil (by decide)

end GdaMetaStruct

end LibGda
