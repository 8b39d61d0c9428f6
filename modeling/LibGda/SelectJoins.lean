import LibGda.Rfc1738
import Mathlib.Data.List.Nodup
import Mathlib.Data.List.Perm.Basic

/-! The targets of a SELECT statement of a `GdaSqlBuilder`, and their joins. -/

namespace LibGda

namespace SqlBuilder

inductive JoinType where
  | cross
  | natural
  | inner
  | left
  | right
  | full
  deriving DecidableEq

variable {E : Type}

structure BuildTarget (E : Type) where
  partId : UInt32
  expr : E
  as : Option Bytes

structure BuilderJoin (E : Type) where
  partId : UInt32
  type : JoinType
  position : Nat
  expr : Option E

/-- What is done with expressions elsewhere: `gda_sql_expr_serialize`, and the expression of
`gda_sql_builder_add_id`. -/
structure ExprTexts (E : Type) where
  serialize : E → Bytes
  ident : Bytes → E

/-- A `GdaSqlBuilder` for a SELECT statement. Of the parts, those which are expressions. -/
structure SelectBuilder (E : Type) where
  nextAssignedId : UInt32 := 0xffffffff
  parts : UInt32 → Option E := fun _ => none
  targets : List (BuildTarget E) := []
  joins : List (BuilderJoin E) := []

inductive FromPiece (E : Type) where
  | target (t : BuildTarget E)
  | joined (join : BuilderJoin E) (t : BuildTarget E)

/-- What `gda_sql_builder_select_join_targets` makes of the type when it exchanges the targets. -/
def JoinType.exchanged : JoinType → JoinType
  | .left => .right
  | .right => .left
  | type => type

section Calls

variable (texts : ExprTexts E)

def addPart (s : SelectBuilder E) (e : E) : SelectBuilder E × UInt32 :=
  ({ s with
      parts := fun id => if id = s.nextAssignedId then some e else s.parts id
      nextAssignedId := s.nextAssignedId - 1 },
    s.nextAssignedId)

def getPart (s : SelectBuilder E) (id : UInt32) : Option E :=
  if id = 0 then none else s.parts id

def shownAlias (targetAlias : Option Bytes) : Option Bytes := targetAlias.filter (· != [])

def addTargetId (s : SelectBuilder E) (tableId : UInt32) (targetAlias : Option Bytes) :
    SelectBuilder E × UInt32 :=
  match getPart s tableId with
  | none => (s, 0)
  | some e =>
    match s.targets.find? fun t => texts.serialize e = texts.serialize t.expr ∧ targetAlias = t.as with
    | some t => (s, t.partId)
    | none =>
      ({ s with
          nextAssignedId := s.nextAssignedId - 1
          targets := s.targets ++ [⟨s.nextAssignedId, e, shownAlias targetAlias⟩] },
        s.nextAssignedId)

def addTarget (s : SelectBuilder E) (tableName : Bytes) (targetAlias : Option Bytes) :
    SelectBuilder E × UInt32 :=
  if tableName = [] then (s, 0)
  else
    let (s, id) := addPart s (texts.ident tableName)
    addTargetId texts s id targetAlias

def targetPositions (left right : UInt32) :
    List (BuildTarget E) → Nat → Option Nat → Option Nat → Option Nat × Option Nat
  | [], _, leftPos, rightPos => (leftPos, rightPos)
  | t :: ts, pos, leftPos, rightPos =>
    let leftPos' := if t.partId = left then some pos else leftPos
    let rightPos' := if t.partId ≠ left ∧ t.partId = right then some pos else rightPos
    if leftPos'.isSome ∧ rightPos'.isSome then (leftPos', rightPos')
    else targetPositions left right ts (pos + 1) leftPos' rightPos'

def createJoin (s : SelectBuilder E) (position : Nat) (type : JoinType) (joinExpr : UInt32) :
    SelectBuilder E × UInt32 :=
  ({ s with
      nextAssignedId := s.nextAssignedId - 1
      joins := s.joins ++ [⟨s.nextAssignedId, type, position, getPart s joinExpr⟩] },
    s.nextAssignedId)

def joinTargets (s : SelectBuilder E) (left right : UInt32) (type : JoinType)
    (joinExpr : UInt32) : SelectBuilder E × UInt32 :=
  match targetPositions left right s.targets 0 none none with
  | (some leftPos, some rightPos) =>
    if rightPos < leftPos then
      -- the call with the two targets exchanged
      match targetPositions right left s.targets 0 none none with
      | (some _, some pos) => createJoin s pos type.exchanged joinExpr
      | _ => (s, 0)
    else createJoin s rightPos type joinExpr
  | _ => (s, 0)

end Calls

section Runs

variable (texts : ExprTexts E)

inductive BuilderCall (E : Type) where
  | addExpr (e : E)
  | addTargetId (tableId : UInt32) (targetAlias : Option Bytes)
  | addTarget (tableName : Bytes) (targetAlias : Option Bytes)
  | joinTargets (left right : UInt32) (type : JoinType) (joinExpr : UInt32)

structure AddedTarget (E : Type) where
  expr : E
  targetAlias : Option Bytes
  id : UInt32

structure MadeJoin (E : Type) where
  left : UInt32
  right : UInt32
  type : JoinType
  expr : Option E

structure History (E : Type) where
  added : List (AddedTarget E) := []
  made : List (MadeJoin E) := []

def tableOf (s : SelectBuilder E) : BuilderCall E → Option (E × Option Bytes)
  | .addTargetId tableId targetAlias => (getPart s tableId).map fun e => (e, targetAlias)
  | .addTarget tableName targetAlias =>
    if tableName = [] then none else some (texts.ident tableName, targetAlias)
  | _ => none

def builderStep (s : SelectBuilder E) : BuilderCall E → SelectBuilder E × UInt32
  | .addExpr e => addPart s e
  | .addTargetId tableId targetAlias => addTargetId texts s tableId targetAlias
  | .addTarget tableName targetAlias => addTarget texts s tableName targetAlias
  | .joinTargets left right type joinExpr => joinTargets s left right type joinExpr

def History.record (h : History E) (s : SelectBuilder E) (id : UInt32) :
    BuilderCall E → History E
  | .joinTargets left right type joinExpr =>
    if id = 0 then h else { h with made := h.made ++ [⟨left, right, type, getPart s joinExpr⟩] }
  | call =>
    match tableOf texts s call with
    | some (e, targetAlias) => { h with added := h.added ++ [⟨e, targetAlias, id⟩] }
    | none => h

def builderRun : SelectBuilder E → History E → List (BuilderCall E) → SelectBuilder E × History E
  | s, h, [] => (s, h)
  | s, h, call :: calls =>
    let (s', id) := builderStep texts s call
    builderRun s' (h.record texts s id call) calls

def positionOf (targets : List (BuildTarget E)) (id : UInt32) : Option Nat :=
  targets.findIdx? (·.partId = id)

namespace MadeJoin

variable (targets : List (BuildTarget E)) (m : MadeJoin E)

def leftPos : Nat := (positionOf targets m.left).getD 0

def rightPos : Nat := (positionOf targets m.right).getD 0

def first : Nat := min (m.leftPos targets) (m.rightPos targets)

def second : Nat := max (m.leftPos targets) (m.rightPos targets)

def shownType : JoinType :=
  if m.rightPos targets < m.leftPos targets then m.type.exchanged else m.type

end MadeJoin

def Together (pieces : List (FromPiece E)) (first second : Nat) : Prop :=
  ∀ pos, first < pos → pos ≤ second →
    ∃ join t, pieces[pos]? = some (.joined join t) ∧ join.type ≠ .cross

def CallFits (s : SelectBuilder E) (call : BuilderCall E) : Prop :=
  2 ≤ s.nextAssignedId.toNat ∧ ∀ e, tableOf texts s call = some (e, some []) →
    ∀ t ∈ s.targets, texts.serialize t.expr = texts.serialize e → t.as ≠ none

def CallsFit : SelectBuilder E → List (BuilderCall E) → Prop
  | _, [] => True
  | s, call :: calls => CallFits texts s call ∧ CallsFit (builderStep texts s call).1 calls

end Runs

section Positions

variable {left right : UInt32} {targets : List (BuildTarget E)} {t : BuildTarget E} {i j pos : Nat}
  {leftPos rightPos : Option Nat}

theorem targetPositions_same :
    (targetPositions left left targets pos leftPos none).2 = none := by
  induction targets generalizing pos leftPos with
  | nil => rfl
  | cons t ts ih =>
    have hno : ¬(t.partId ≠ left ∧ t.partId = left) := fun h => h.1 h.2
    simpa only [targetPositions, if_neg hno, Option.isSome_none, Bool.false_eq_true, and_false,
      if_false] using ih

theorem targetPositions_left (hl : t.partId = left) :
    targetPositions left right (t :: targets) pos leftPos rightPos =
      if rightPos.isSome then (some pos, rightPos)
      else targetPositions left right targets (pos + 1) (some pos) rightPos := by
  simp [targetPositions, hl]

theorem targetPositions_right (hl : t.partId ≠ left) (hr : t.partId = right) :
    targetPositions left right (t :: targets) pos leftPos rightPos =
      if leftPos.isSome then (leftPos, some pos)
      else targetPositions left right targets (pos + 1) leftPos (some pos) := by
  subst hr
  simp [targetPositions, hl]

theorem targetPositions_other (hl : t.partId ≠ left) (hr : t.partId ≠ right) :
    targetPositions left right (t :: targets) pos leftPos rightPos =
      if leftPos.isSome ∧ rightPos.isSome then (leftPos, rightPos)
      else targetPositions left right targets (pos + 1) leftPos rightPos := by
  simp [targetPositions, hl, hr]

theorem positionOf_cons (id : UInt32) : positionOf (t :: targets) id =
    if t.partId = id then some 0 else (positionOf targets id).map (· + 1) := by
  simp [positionOf, List.findIdx?_cons]

theorem positionOf_eq_none {id : UInt32} :
    positionOf targets id = none ↔ id ∉ targets.map BuildTarget.partId := by
  simp [positionOf, List.findIdx?_eq_none_iff]

theorem positionOf_other {id : UInt32} (h : t.partId ≠ id) :
    (positionOf (t :: targets) id).map (· + pos) =
      (positionOf targets id).map (· + (pos + 1)) := by
  rw [positionOf_cons, if_neg h, Option.map_map]
  congr 1
  funext n
  simp only [Function.comp_apply]
  omega

theorem targetPositions_eq (hne : left ≠ right)
    (hnodup : (targets.map BuildTarget.partId).Nodup)
    (hleft : leftPos.isSome → positionOf targets left = none)
    (hright : rightPos.isSome → positionOf targets right = none)
    (hmissing : ¬(leftPos.isSome ∧ rightPos.isSome)) :
    targetPositions left right targets pos leftPos rightPos =
      (leftPos.or ((positionOf targets left).map (· + pos)),
        rightPos.or ((positionOf targets right).map (· + pos))) := by
  induction targets generalizing pos leftPos rightPos with
  | nil => simp [targetPositions, positionOf]
  | cons t ts ih =>
    obtain ⟨hnot, hnodup'⟩ := List.nodup_cons.1 hnodup
    have htail : ∀ {id}, positionOf (t :: ts) id = none → positionOf ts id = none := by
      intro id hid
      rw [positionOf_eq_none] at hid ⊢
      exact fun hmem => hid (List.mem_cons_of_mem _ hmem)
    by_cases hl : t.partId = left
    · have hnone : positionOf ts left = none := positionOf_eq_none.2 (hl ▸ hnot)
      have hr : t.partId ≠ right := fun hr => hne (hl.symm.trans hr)
      cases leftPos with
      | some a =>
        have hno := hleft rfl
        rw [positionOf_cons, if_pos hl] at hno
        cases hno
      | none =>
        rw [targetPositions_left hl, positionOf_other hr, positionOf_cons, if_pos hl]
        cases rightPos with
        | some b => simp
        | none =>
          rw [if_neg (by simp), ih hnodup' (fun _ => hnone) (by simp) (by simp)]
          simp
    · by_cases hr : t.partId = right
      · have hnone : positionOf ts right = none := positionOf_eq_none.2 (hr ▸ hnot)
        cases rightPos with
        | some b =>
          have hno := hright rfl
          rw [positionOf_cons, if_pos hr] at hno
          cases hno
        | none =>
          rw [targetPositions_right hl hr, positionOf_other hl, positionOf_cons, if_pos hr]
          cases leftPos with
          | some a => simp
          | none =>
            rw [if_neg (by simp), ih hnodup' (by simp) (fun _ => hnone) (by simp)]
            simp
      · rw [targetPositions_other hl hr, if_neg hmissing, positionOf_other hl, positionOf_other hr]
        exact ih hnodup' (fun h => htail (hleft h)) (fun h => htail (hright h)) hmissing

theorem positionOf_ne (h : positionOf targets left = some i) (h' : positionOf targets right = some j)
    (hne : left ≠ right) : i ≠ j := by
  intro heq
  rw [← heq] at h'
  obtain ⟨hlt, hi, -⟩ := List.findIdx?_eq_some_iff_getElem.1 h
  obtain ⟨hlt', hj, -⟩ := List.findIdx?_eq_some_iff_getElem.1 h'
  exact hne ((of_decide_eq_true hi).symm.trans (of_decide_eq_true hj))

theorem positionOf_append {id : UInt32} (h : positionOf targets id = some i)
    (more : List (BuildTarget E)) : positionOf (targets ++ more) id = some i := by
  rw [positionOf, List.findIdx?_append]
  rw [positionOf] at h
  rw [h]
  rfl

end Positions

section Clause

variable {joins : List (BuilderJoin E)} {targets : List (BuildTarget E)} {join : BuilderJoin E}
  {pos start : Nat} {x : Nat × JoinType × Option E} {m : MadeJoin E}

def BuilderJoin.shape (join : BuilderJoin E) : Nat × JoinType × Option E :=
  (join.position, join.type, join.expr)

def MadeJoin.shape (targets : List (BuildTarget E)) (m : MadeJoin E) :
    Nat × JoinType × Option E :=
  (m.second targets, m.shownType targets, m.expr)

def MadeJoin.Known (targets : List (BuildTarget E)) (m : MadeJoin E) : Prop :=
  ∃ i j, positionOf targets m.left = some i ∧ positionOf targets m.right = some j ∧ i ≠ j

end Clause

section Invariant

variable {texts : ExprTexts E} {s s' : SelectBuilder E} {h : History E} {e : E}
  {targetAlias : Option Bytes} {tableId : UInt32}

/-- The targets differ in their IDs and in their contents, each call which added one has its ID,
and the joins are the ones which were made. -/
structure Kept (texts : ExprTexts E) (s : SelectBuilder E) (h : History E) : Prop where
  ids : (s.targets.map BuildTarget.partId).Nodup
  above : ∀ t ∈ s.targets, s.nextAssignedId.toNat < t.partId.toNat
  as : ∀ t ∈ s.targets, t.as ≠ some []
  keys : ∀ t ∈ s.targets, ∀ t' ∈ s.targets,
    texts.serialize t.expr = texts.serialize t'.expr → t.as = t'.as → t = t'
  added : ∀ a ∈ h.added, ∃ t ∈ s.targets, t.partId = a.id ∧
    texts.serialize t.expr = texts.serialize a.expr ∧ t.as = shownAlias a.targetAlias
  shapes : s.joins.map BuilderJoin.shape = h.made.map (MadeJoin.shape s.targets)
  known : ∀ m ∈ h.made, m.Known s.targets

theorem shownAlias_ne : shownAlias targetAlias ≠ some [] := by
  cases targetAlias with
  | none => simp [shownAlias]
  | some name => by_cases hname : name = [] <;> simp [shownAlias, Option.filter, hname]

theorem shownAlias_of_ne (hne : targetAlias ≠ some []) : shownAlias targetAlias = targetAlias := by
  cases targetAlias with
  | none => rfl
  | some name => simpa [shownAlias, Option.filter] using hne

theorem toNat_next {n : UInt32} (hn : 1 ≤ n.toNat) : (n - 1).toNat = n.toNat - 1 := by
  rw [UInt32.toNat_sub_of_le]
  · rfl
  · exact UInt32.le_iff_toNat_le.2 hn

theorem Kept.addPart (hk : Kept texts s h) (hnext : 1 ≤ s.nextAssignedId.toNat) (e : E) :
    Kept texts (SqlBuilder.addPart s e).1 h := by
  refine ⟨hk.ids, ?_, hk.as, hk.keys, hk.added, hk.shapes, hk.known⟩
  intro t ht
  have hlt := hk.above t ht
  show (s.nextAssignedId - 1).toNat < _
  rw [toNat_next hnext]
  omega

theorem getPart_addPart (hnext : 1 ≤ s.nextAssignedId.toNat) :
    getPart (SqlBuilder.addPart s e).1 (SqlBuilder.addPart s e).2 = some e := by
  have hne : s.nextAssignedId ≠ 0 := by
    intro hzero
    rw [hzero] at hnext
    exact absurd hnext (by decide)
  simp [getPart, SqlBuilder.addPart, hne]

theorem MadeJoin.Known.append {targets : List (BuildTarget E)} {m : MadeJoin E}
    (hm : m.Known targets) (more : List (BuildTarget E)) :
    m.Known (targets ++ more) ∧ m.shape (targets ++ more) = m.shape targets := by
  obtain ⟨i, j, hi, hj, hne⟩ := hm
  have hi' := positionOf_append hi more
  have hj' := positionOf_append hj more
  refine ⟨⟨i, j, hi', hj', hne⟩, ?_⟩
  simp only [shape, second, shownType, leftPos, rightPos, hi, hj, hi', hj']

theorem Kept.addTargetId (hk : Kept texts s h) (hnext : 1 ≤ s.nextAssignedId.toNat)
    (hpart : getPart s tableId = some e)
    (hempty : targetAlias = some [] → ∀ t ∈ s.targets,
      texts.serialize t.expr = texts.serialize e → t.as ≠ none) :
    Kept texts (SqlBuilder.addTargetId texts s tableId targetAlias).1
      { h with
        added := h.added ++
          [⟨e, targetAlias, (SqlBuilder.addTargetId texts s tableId targetAlias).2⟩] } := by
  rw [SqlBuilder.addTargetId, hpart]
  simp only
  cases hfound : s.targets.find? fun t =>
      texts.serialize e = texts.serialize t.expr ∧ targetAlias = t.as with
  | some t =>
    have hmem := List.mem_of_find?_eq_some hfound
    have hsame := List.find?_some hfound
    obtain ⟨hexpr, has⟩ := of_decide_eq_true hsame
    refine ⟨hk.ids, hk.above, hk.as, hk.keys, ?_, hk.shapes, hk.known⟩
    intro a ha
    rcases List.mem_append.1 ha with ha | ha
    · exact hk.added a ha
    · rw [List.mem_singleton.1 ha]
      refine ⟨t, hmem, rfl, hexpr.symm, ?_⟩
      rw [has, shownAlias_of_ne (hk.as t hmem)]
  | none =>
    have hnew : ∀ t ∈ s.targets, texts.serialize t.expr = texts.serialize e →
        t.as ≠ shownAlias targetAlias := by
      intro t ht hexpr has
      by_cases halias : targetAlias = some []
      · rw [halias] at has
        exact hempty halias t ht hexpr has
      · rw [shownAlias_of_ne halias] at has
        have hno := List.find?_eq_none.1 hfound t ht
        exact hno (decide_eq_true ⟨hexpr.symm, has.symm⟩)
    have hnextLt : (s.nextAssignedId - 1).toNat < s.nextAssignedId.toNat := by
      rw [toNat_next hnext]
      omega
    refine ⟨?_, ?_, ?_, ?_, ?_, ?_, ?_⟩
    · rw [List.map_append, List.nodup_append]
      refine ⟨hk.ids, List.nodup_singleton _, ?_⟩
      intro id hid id' hid' heq
      obtain ⟨t, ht, rfl⟩ := List.mem_map.1 hid
      have hlt := hk.above t ht
      rw [heq, List.mem_singleton.1 hid'] at hlt
      exact absurd hlt (Nat.lt_irrefl _)
    · intro t ht
      rcases List.mem_append.1 ht with ht | ht
      · exact hnextLt.trans (hk.above t ht)
      · rw [List.mem_singleton.1 ht]
        exact hnextLt
    · intro t ht
      rcases List.mem_append.1 ht with ht | ht
      · exact hk.as t ht
      · rw [List.mem_singleton.1 ht]
        exact shownAlias_ne
    · intro t ht t' ht' hexpr has
      rcases List.mem_append.1 ht with ht | ht
      · rcases List.mem_append.1 ht' with ht' | ht'
        · exact hk.keys t ht t' ht' hexpr has
        · rw [List.mem_singleton.1 ht'] at hexpr has
          exact absurd has (hnew t ht hexpr)
      · rcases List.mem_append.1 ht' with ht' | ht'
        · rw [List.mem_singleton.1 ht] at hexpr has
          exact absurd has.symm (hnew t' ht' hexpr.symm)
        · rw [List.mem_singleton.1 ht, List.mem_singleton.1 ht']
    · intro a ha
      rcases List.mem_append.1 ha with ha | ha
      · obtain ⟨t, ht, hfacts⟩ := hk.added a ha
        exact ⟨t, List.mem_append_left _ ht, hfacts⟩
      · rw [List.mem_singleton.1 ha]
        exact ⟨_, List.mem_append_right _ (List.mem_singleton_self _), rfl, rfl, rfl⟩
    · show s.joins.map BuilderJoin.shape = _
      rw [hk.shapes]
      apply List.map_congr_left
      intro m hm
      exact ((hk.known m hm).append _).2.symm
    · intro m hm
      exact ((hk.known m hm).append _).1

theorem Kept.joinTargets (hk : Kept texts s h) (hnext : 1 ≤ s.nextAssignedId.toNat)
    (left right : UInt32) (type : JoinType) (joinExpr : UInt32) :
    Kept texts (SqlBuilder.joinTargets s left right type joinExpr).1
      (h.record texts s (SqlBuilder.joinTargets s left right type joinExpr).2
        (.joinTargets left right type joinExpr)) := by
  have hne0 : s.nextAssignedId ≠ 0 := by
    intro hzero
    rw [hzero] at hnext
    exact absurd hnext (by decide)
  have hkeep : Kept texts s (h.record texts s 0 (.joinTargets left right type joinExpr)) := hk
  -- the join which is made, at a position and of a type
  have hcreate : ∀ i j position type', positionOf s.targets left = some i →
      positionOf s.targets right = some j → i ≠ j → position = max i j →
      type' = (if j < i then type.exchanged else type) →
      Kept texts (createJoin s position type' joinExpr).1
        (h.record texts s (createJoin s position type' joinExpr).2
          (.joinTargets left right type joinExpr)) := by
    intro i j position type' hi hj hij hposition htype
    have hrecord : h.record texts s (createJoin s position type' joinExpr).2
        (.joinTargets left right type joinExpr) =
          { h with made := h.made ++ [⟨left, right, type, getPart s joinExpr⟩] } := if_neg hne0
    rw [hrecord]
    refine ⟨hk.ids, ?_, hk.as, hk.keys, hk.added, ?_, ?_⟩
    · intro t ht
      have hlt := hk.above t ht
      show (s.nextAssignedId - 1).toNat < _
      rw [toNat_next hnext]
      omega
    · show (s.joins ++ [_]).map BuilderJoin.shape = (h.made ++ [_]).map (MadeJoin.shape s.targets)
      rw [List.map_append, List.map_append, hk.shapes]
      simp [BuilderJoin.shape, MadeJoin.shape, MadeJoin.second, MadeJoin.shownType,
        MadeJoin.leftPos, MadeJoin.rightPos, hi, hj, hposition, htype]
    · intro m hm
      rcases List.mem_append.1 hm with hm | hm
      · exact hk.known m hm
      · rw [List.mem_singleton.1 hm]
        exact ⟨i, j, hi, hj, hij⟩
  by_cases hsame : left = right
  · have hnone : (targetPositions left left s.targets 0 none none).2 = none :=
      targetPositions_same
    subst hsame
    rw [SqlBuilder.joinTargets]
    cases hfound : targetPositions left left s.targets 0 none none with
    | mk leftPos rightPos =>
      rw [hfound] at hnone
      obtain rfl : rightPos = none := hnone
      cases leftPos <;> exact hkeep
  · have hpositions : ∀ a b, a ≠ b → targetPositions a b s.targets 0 none none =
        (positionOf s.targets a, positionOf s.targets b) := by
      intro a b hab
      rw [targetPositions_eq hab hk.ids (by simp) (by simp) (by simp)]
      simp
    rw [SqlBuilder.joinTargets, hpositions left right hsame,
      hpositions right left (Ne.symm hsame)]
    cases hi : positionOf s.targets left with
    | none => exact hkeep
    | some i =>
      cases hj : positionOf s.targets right with
      | none => exact hkeep
      | some j =>
        have hij := positionOf_ne hi hj hsame
        by_cases hlt : j < i
        · simp only [if_pos hlt]
          exact hcreate i j i _ hi hj hij (by omega) (if_pos hlt).symm
        · simp only [if_neg hlt]
          exact hcreate i j j _ hi hj hij (by omega) (if_neg hlt).symm

theorem Kept.step (hk : Kept texts s h) {call : BuilderCall E} (hfits : CallFits texts s call) :
    Kept texts (builderStep texts s call).1
      (h.record texts s (builderStep texts s call).2 call) := by
  obtain ⟨hnext, hempty⟩ := hfits
  have hone : 1 ≤ s.nextAssignedId.toNat := by omega
  cases call with
  | addExpr e => exact hk.addPart hone e
  | addTargetId tableId targetAlias =>
    cases hpart : getPart s tableId with
    | none =>
      have hstep : builderStep texts s (.addTargetId tableId targetAlias) = (s, 0) := by
        rw [builderStep, SqlBuilder.addTargetId, hpart]
      rw [hstep]
      simp only [History.record, tableOf, hpart, Option.map_none]
      exact hk
    | some e =>
      simp only [History.record, tableOf, hpart, Option.map_some]
      refine hk.addTargetId hone hpart fun halias => hempty e ?_
      rw [tableOf, hpart, halias]
      rfl
  | addTarget tableName targetAlias =>
    by_cases hname : tableName = []
    · have hstep : builderStep texts s (.addTarget tableName targetAlias) = (s, 0) := by
        rw [builderStep, SqlBuilder.addTarget, if_pos hname]
      rw [hstep]
      simp only [History.record, tableOf, if_pos hname]
      exact hk
    · have hstep : builderStep texts s (.addTarget tableName targetAlias) =
          SqlBuilder.addTargetId texts (SqlBuilder.addPart s (texts.ident tableName)).1
            (SqlBuilder.addPart s (texts.ident tableName)).2 targetAlias := by
        rw [builderStep, SqlBuilder.addTarget, if_neg hname]
      rw [hstep]
      simp only [History.record, tableOf, if_neg hname]
      refine (hk.addPart hone _).addTargetId ?_ (getPart_addPart hone) fun halias => hempty _ ?_
      · show 1 ≤ (s.nextAssignedId - 1).toNat
        rw [toNat_next hone]
        omega
      · rw [tableOf, if_neg hname, halias]
  | joinTargets left right type joinExpr => exact hk.joinTargets hone left right type joinExpr

theorem Kept.run (hk : Kept texts s h) (calls : List (BuilderCall E))
    (hfits : CallsFit texts s calls) :
    Kept texts (builderRun texts s h calls).1 (builderRun texts s h calls).2 := by
  induction calls generalizing s h with
  | nil => exact hk
  | cons call calls ih => exact ih (hk.step hfits.1) hfits.2

end Invariant

end SqlBuilder

end LibGda
