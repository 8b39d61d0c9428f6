import Mathlib.Data.List.Basic

/-! A shift-reduce parser of expressions in which the precedences of the operators
decide between shifting and reducing. What a reduction builds is a parameter. -/

namespace OperatorPrecedence

/-- An operator may be a prefix, a binary operator or both; suffixes bind tighter
than every operator. -/
inductive Token (L T S O C : Type) where
  | leaf (l : L)
  | operator (t : T)
  | suffix (s : S)
  | opening (o : O)
  | closing (c : C)
  deriving DecidableEq

inductive Assoc where
  | left
  | right
  deriving DecidableEq

structure Grammar (T O C : Type) where
  prefixLevel : T → Option Nat
  binaryLevel : T → Option (Nat × Assoc)
  closes : O → C → Bool

structure Actions (L T S O C α : Type) where
  leaf : L → α
  prefixed : T → α → α
  binary : T → α → α → α
  suffixed : S → α → α
  bracketed : O → C → α → α

/-- What waits on the stack for the end of an operand. -/
inductive Frame (T O α : Type) where
  | prefixed (t : T)
  | binary (t : T) (left : α)
  | bracket (o : O)

variable {L T S O C α β : Type}

/-- A rule of level `level` is reduced rather than the token shifted. -/
def reducesBefore (token : Nat × Assoc) (level : Nat) : Bool :=
  decide (token.1 < level) || (decide (token.1 = level) && token.2 == .left)

/-- Reduces the rules on the top of the stack whose level `reduces` accepts. -/
def reduceWhile (g : Grammar T O C) (a : Actions L T S O C α) (reduces : Nat → Bool) :
    List (Frame T O α) → α → List (Frame T O α) × α
  | .prefixed t :: stack, v =>
    if (g.prefixLevel t).any reduces then reduceWhile g a reduces stack (a.prefixed t v)
    else (.prefixed t :: stack, v)
  | .binary t left :: stack, v =>
    if (g.binaryLevel t).any (reduces ·.1) then reduceWhile g a reduces stack (a.binary t left v)
    else (.binary t left :: stack, v)
  | stack, v => (stack, v)

def close (g : Grammar T O C) (a : Actions L T S O C α) (c : C) :
    List (Frame T O α) × α → Option (List (Frame T O α) × Option α)
  | (.bracket o :: stack, v) =>
    if g.closes o c then some (stack, some (a.bracketed o c v)) else none
  | _ => none

def step (g : Grammar T O C) (a : Actions L T S O C α) :
    List (Frame T O α) × Option α → Token L T S O C → Option (List (Frame T O α) × Option α)
  | (stack, none), .leaf l => some (stack, some (a.leaf l))
  | (stack, none), .operator t => (g.prefixLevel t).map fun _ => (.prefixed t :: stack, none)
  | (stack, none), .opening o => some (.bracket o :: stack, none)
  | (stack, some v), .suffix s => some (stack, some (a.suffixed s v))
  | (stack, some v), .operator t => (g.binaryLevel t).map fun level =>
    let r := reduceWhile g a (reducesBefore level) stack v
    (.binary t r.2 :: r.1, none)
  | (stack, some v), .closing c => close g a c (reduceWhile g a (fun _ => true) stack v)
  | _, _ => none

def finish (g : Grammar T O C) (a : Actions L T S O C α) :
    List (Frame T O α) × Option α → Option α
  | (stack, some v) =>
    match reduceWhile g a (fun _ => true) stack v with
    | ([], v) => some v
    | _ => none
  | (_, none) => none

def parseFrom (g : Grammar T O C) (a : Actions L T S O C α)
    (s : List (Frame T O α) × Option α) : List (Token L T S O C) → Option α
  | [] => finish g a s
  | token :: tokens => (step g a s token).bind fun s => parseFrom g a s tokens

def parse (g : Grammar T O C) (a : Actions L T S O C α) (tokens : List (Token L T S O C)) :
    Option α :=
  parseFrom g a ([], none) tokens

/-- `h` carries what the actions `a` build to what the actions `b` build. -/
structure Hom (a : Actions L T S O C α) (b : Actions L T S O C β) (h : α → β) : Prop where
  leaf : ∀ l, h (a.leaf l) = b.leaf l
  prefixed : ∀ t v, h (a.prefixed t v) = b.prefixed t (h v)
  binary : ∀ t v w, h (a.binary t v w) = b.binary t (h v) (h w)
  suffixed : ∀ s v, h (a.suffixed s v) = b.suffixed s (h v)
  bracketed : ∀ o c v, h (a.bracketed o c v) = b.bracketed o c (h v)

def Frame.map (h : α → β) : Frame T O α → Frame T O β
  | .prefixed t => .prefixed t
  | .binary t left => .binary t (h left)
  | .bracket o => .bracket o

section Hom

variable {g : Grammar T O C} {a : Actions L T S O C α} {b : Actions L T S O C β} {h : α → β}

def mapState (h : α → β) (s : List (Frame T O α) × Option α) : List (Frame T O β) × Option β :=
  (s.1.map (Frame.map h), s.2.map h)

theorem reduceWhile_map (hh : Hom a b h) (reduces : Nat → Bool) (stack : List (Frame T O α))
    (v : α) : reduceWhile g b reduces (stack.map (Frame.map h)) (h v) =
      ((reduceWhile g a reduces stack v).1.map (Frame.map h),
        h (reduceWhile g a reduces stack v).2) := by
  induction stack generalizing v with
  | nil => rfl
  | cons frame stack ih =>
    cases frame with
    | prefixed t =>
      by_cases hr : (g.prefixLevel t).any reduces = true
      · have hstep := ih (a.prefixed t v)
        rw [hh.prefixed] at hstep
        simpa only [List.map_cons, Frame.map, reduceWhile, hr, if_true] using hstep
      · simp only [List.map_cons, Frame.map, reduceWhile, hr]
        rfl
    | binary t left =>
      by_cases hr : (g.binaryLevel t).any (fun level => reduces level.1) = true
      · have hstep := ih (a.binary t left v)
        rw [hh.binary] at hstep
        simpa only [List.map_cons, Frame.map, reduceWhile, hr, if_true] using hstep
      · simp only [List.map_cons, Frame.map, reduceWhile, hr]
        rfl
    | bracket o => rfl

theorem close_map (hh : Hom a b h) (c : C) (stack : List (Frame T O α)) (v : α) :
    close g b c (stack.map (Frame.map h), h v) = (close g a c (stack, v)).map (mapState h) := by
  cases stack with
  | nil => rfl
  | cons frame stack =>
    cases frame with
    | prefixed t => rfl
    | binary t left => rfl
    | bracket o =>
      by_cases hc : g.closes o c = true
      · simp [close, Frame.map, hc, mapState, hh.bracketed]
      · simp [close, Frame.map, hc]

theorem step_map (hh : Hom a b h) (s : List (Frame T O α) × Option α) (token : Token L T S O C) :
    step g b (mapState h s) token = (step g a s token).map (mapState h) := by
  obtain ⟨stack, v⟩ := s
  cases v with
  | none =>
    cases token with
    | leaf l => simp [step, mapState, hh.leaf]
    | operator t => cases hp : g.prefixLevel t <;> simp [step, mapState, hp, Frame.map]
    | suffix s => rfl
    | opening o => simp [step, mapState, Frame.map]
    | closing c => rfl
  | some v =>
    cases token with
    | leaf l => rfl
    | operator t =>
      cases hb : g.binaryLevel t with
      | none => simp [step, mapState, hb]
      | some level => simp [step, mapState, hb, reduceWhile_map hh, Frame.map]
    | suffix s => simp [step, mapState, hh.suffixed]
    | opening o => rfl
    | closing c =>
      simp only [step, mapState, Option.map_some]
      rw [reduceWhile_map hh, close_map hh]

theorem finish_map (hh : Hom a b h) (s : List (Frame T O α) × Option α) :
    finish g b (mapState h s) = (finish g a s).map h := by
  obtain ⟨stack, v⟩ := s
  cases v with
  | none => rfl
  | some v =>
    simp only [finish, mapState, Option.map_some, reduceWhile_map hh]
    cases hr : reduceWhile g a (fun _ => true) stack v with
    | mk rest w => cases rest <;> rfl

theorem parse_map (hh : Hom a b h) (tokens : List (Token L T S O C)) :
    parse g b tokens = (parse g a tokens).map h := by
  suffices hs : ∀ s, parseFrom g b (mapState h s) tokens = (parseFrom g a s tokens).map h from
    hs ([], none)
  induction tokens with
  | nil => exact fun s => finish_map hh s
  | cons token tokens ih =>
    intro s
    simp only [parseFrom, step_map hh]
    cases step g a s token with
    | none => rfl
    | some s' => exact ih s'

end Hom

/-- What is read, without any action. -/
inductive Tree (L T S O C : Type) where
  | leaf (l : L)
  | prefixed (t : T) (e : Tree L T S O C)
  | binary (t : T) (l r : Tree L T S O C)
  | suffixed (s : S) (e : Tree L T S O C)
  | bracketed (o : O) (c : C) (e : Tree L T S O C)
  deriving DecidableEq

namespace Tree

def actions : Actions L T S O C (Tree L T S O C) where
  leaf := leaf
  prefixed := prefixed
  binary := binary
  suffixed := suffixed
  bracketed := bracketed

def fold (a : Actions L T S O C α) : Tree L T S O C → α
  | leaf l => a.leaf l
  | prefixed t e => a.prefixed t (e.fold a)
  | binary t l r => a.binary t (l.fold a) (r.fold a)
  | suffixed s e => a.suffixed s (e.fold a)
  | bracketed o c e => a.bracketed o c (e.fold a)

theorem fold_hom (a : Actions L T S O C α) : Hom actions a (fold a) :=
  ⟨fun _ => rfl, fun _ _ => rfl, fun _ _ _ => rfl, fun _ _ => rfl, fun _ _ _ => rfl⟩

theorem map_fold {a : Actions L T S O C α} {b : Actions L T S O C β} {h : α → β}
    (hh : Hom a b h) (t : Tree L T S O C) : h (t.fold a) = t.fold b := by
  induction t with
  | leaf l => exact hh.leaf l
  | prefixed t e ih => simp only [fold, hh.prefixed, ih]
  | binary t l r ihl ihr => simp only [fold, hh.binary, ihl, ihr]
  | suffixed s e ih => simp only [fold, hh.suffixed, ih]
  | bracketed o c e ih => simp only [fold, hh.bracketed, ih]

def leaves : Tree L T S O C → List L
  | leaf l => [l]
  | prefixed _ e => e.leaves
  | binary _ l r => l.leaves ++ r.leaves
  | suffixed _ e => e.leaves
  | bracketed _ _ e => e.leaves

theorem fold_congr (a : Actions L T S O C α) (f : L → α) {t : Tree L T S O C}
    (h : ∀ l ∈ t.leaves, f l = a.leaf l) : t.fold { a with leaf := f } = t.fold a := by
  induction t with
  | leaf l => exact h l List.mem_cons_self
  | prefixed t e ih => exact congrArg (a.prefixed t) (ih h)
  | binary t l r ihl ihr =>
    have hl := ihl fun i hi => h i (List.mem_append_left _ hi)
    have hr := ihr fun i hi => h i (List.mem_append_right _ hi)
    simp only [fold, hl, hr]
  | suffixed s e ih => exact congrArg (a.suffixed s) (ih h)
  | bracketed o c e ih => exact congrArg (a.bracketed o c) (ih h)

def tokens : Tree L T S O C → List (Token L T S O C)
  | leaf l => [.leaf l]
  | prefixed t e => .operator t :: e.tokens
  | binary t l r => l.tokens ++ .operator t :: r.tokens
  | suffixed s e => e.tokens ++ [.suffix s]
  | bracketed o c e => .opening o :: e.tokens ++ [.closing c]

end Tree

theorem parse_eq_fold (g : Grammar T O C) (a : Actions L T S O C α)
    (tokens : List (Token L T S O C)) :
    parse g a tokens = (parse g Tree.actions tokens).map (Tree.fold a) :=
  parse_map (Tree.fold_hom a) tokens

section Tokens

variable {g : Grammar T O C}

def Frame.tokens : Frame T O (Tree L T S O C) → List (Token L T S O C)
  | .prefixed t => [.operator t]
  | .binary t left => left.tokens ++ [.operator t]
  | .bracket o => [.opening o]

def stackTokens (stack : List (Frame T O (Tree L T S O C))) : List (Token L T S O C) :=
  (stack.reverse.map Frame.tokens).flatten

def stateTokens (s : List (Frame T O (Tree L T S O C)) × Option (Tree L T S O C)) :
    List (Token L T S O C) :=
  stackTokens s.1 ++ (s.2.map Tree.tokens).getD []

theorem stackTokens_cons (frame : Frame T O (Tree L T S O C))
    (stack : List (Frame T O (Tree L T S O C))) :
    stackTokens (frame :: stack) = stackTokens stack ++ frame.tokens := by
  simp [stackTokens]

theorem reduceWhile_tokens (reduces : Nat → Bool) (stack : List (Frame T O (Tree L T S O C)))
    (v : Tree L T S O C) :
    stackTokens (reduceWhile g Tree.actions reduces stack v).1 ++
      (reduceWhile g Tree.actions reduces stack v).2.tokens = stackTokens stack ++ v.tokens := by
  induction stack generalizing v with
  | nil => rfl
  | cons frame stack ih =>
    rw [stackTokens_cons]
    cases frame with
    | prefixed t =>
      unfold reduceWhile
      split
      · rw [ih]
        simp [Frame.tokens, Tree.actions, Tree.tokens]
      · rw [stackTokens_cons]
    | binary t left =>
      unfold reduceWhile
      split
      · rw [ih]
        simp [Frame.tokens, Tree.actions, Tree.tokens]
      · rw [stackTokens_cons]
    | bracket o => rw [reduceWhile, stackTokens_cons]; all_goals simp

theorem close_tokens {c : C} {r : List (Frame T O (Tree L T S O C)) × Tree L T S O C}
    {s : List (Frame T O (Tree L T S O C)) × Option (Tree L T S O C)}
    (h : close g Tree.actions c r = some s) :
    stateTokens s = stackTokens r.1 ++ r.2.tokens ++ [.closing c] := by
  obtain ⟨stack, v⟩ := r
  cases stack with
  | nil => cases h
  | cons frame stack =>
    cases frame with
    | prefixed t => cases h
    | binary t left => cases h
    | bracket o =>
      by_cases ho : g.closes o c = true
      · simp only [close, ho, if_true, Option.some.injEq] at h
        subst h
        simp [stateTokens, stackTokens_cons, Frame.tokens, Tree.actions, Tree.tokens]
      · simp [close, ho] at h

theorem step_tokens {s s' : List (Frame T O (Tree L T S O C)) × Option (Tree L T S O C)}
    {token : Token L T S O C} (h : step g Tree.actions s token = some s') :
    stateTokens s' = stateTokens s ++ [token] := by
  obtain ⟨stack, v⟩ := s
  cases v with
  | none =>
    cases token with
    | leaf l =>
      obtain rfl := Option.some.inj h
      simp [stateTokens, Tree.actions, Tree.tokens]
    | operator t =>
      obtain ⟨level, -, rfl⟩ := Option.map_eq_some_iff.1 h
      simp [stateTokens, stackTokens_cons, Frame.tokens]
    | suffix s => cases h
    | opening o =>
      obtain rfl := Option.some.inj h
      simp [stateTokens, stackTokens_cons, Frame.tokens]
    | closing c => cases h
  | some v =>
    cases token with
    | leaf l => cases h
    | operator t =>
      obtain ⟨level, -, rfl⟩ := Option.map_eq_some_iff.1 h
      have hr := reduceWhile_tokens (g := g) (reducesBefore level) stack v
      simp only [stateTokens, stackTokens_cons, Frame.tokens, Option.map_some, Option.getD_some,
        Option.map_none, Option.getD_none, List.append_nil]
      rw [← hr, List.append_assoc]
    | suffix s =>
      obtain rfl := Option.some.inj h
      simp [stateTokens, Tree.actions, Tree.tokens]
    | opening o => cases h
    | closing c =>
      have hr := reduceWhile_tokens (g := g) (fun _ => true) stack v
      have hc : close g Tree.actions c (reduceWhile g Tree.actions (fun _ => true) stack v) =
        some s' := h
      rw [close_tokens hc, hr]
      rfl

theorem parse_tokens {tokens : List (Token L T S O C)} {t : Tree L T S O C}
    (h : parse g Tree.actions tokens = some t) : t.tokens = tokens := by
  suffices hs : ∀ s, parseFrom g Tree.actions s tokens = some t →
      t.tokens = stateTokens s ++ tokens by simpa [stateTokens, stackTokens] using hs ([], none) h
  clear h
  induction tokens with
  | nil =>
    rintro ⟨stack, v⟩ h
    cases v with
    | none => cases h
    | some v =>
      have hr := reduceWhile_tokens (g := g) (fun _ => true) stack v
      unfold parseFrom finish at h
      simp only at h
      generalize reduceWhile g Tree.actions (fun _ => true) stack v = r at h hr
      obtain ⟨rest, w⟩ := r
      cases rest with
      | nil =>
        obtain rfl := Option.some.inj h
        simpa [stateTokens, stackTokens] using hr
      | cons frame rest => cases h
  | cons token tokens ih =>
    intro s h
    obtain ⟨s', hs', h⟩ := Option.bind_eq_some_iff.1 h
    rw [ih s' h, step_tokens hs']
    simp

def numberFrom (n : Nat) : List (Token L T S O C) → List (Token (Nat × L) T S O C)
  | [] => []
  | .leaf l :: tokens => .leaf (n, l) :: numberFrom (n + 1) tokens
  | .operator t :: tokens => .operator t :: numberFrom (n + 1) tokens
  | .suffix s :: tokens => .suffix s :: numberFrom (n + 1) tokens
  | .opening o :: tokens => .opening o :: numberFrom (n + 1) tokens
  | .closing c :: tokens => .closing c :: numberFrom (n + 1) tokens

def Token.leaf? : Token L T S O C → Option L
  | .leaf l => some l
  | _ => none

theorem Tree.leaves_eq_filterMap (t : Tree L T S O C) :
    t.leaves = t.tokens.filterMap Token.leaf? := by
  induction t with
  | leaf l => rfl
  | prefixed t e ih => simpa [leaves, tokens, Token.leaf?, List.filterMap_cons] using ih
  | binary t l r ihl ihr => simp [leaves, tokens, Token.leaf?, List.filterMap_cons, ihl, ihr]
  | suffixed s e ih => simpa [leaves, tokens, Token.leaf?, List.filterMap_cons] using ih
  | bracketed o c e ih => simpa [leaves, tokens, Token.leaf?, List.filterMap_cons] using ih

theorem le_of_mem_numberFrom {n : Nat} {tokens : List (Token L T S O C)} {l : Nat × L}
    (h : l ∈ (numberFrom n tokens).filterMap Token.leaf?) : n ≤ l.1 := by
  induction tokens generalizing n with
  | nil => simp [numberFrom] at h
  | cons token tokens ih =>
    cases token with
    | leaf l' =>
      simp only [numberFrom, Token.leaf?, List.filterMap_cons, List.mem_cons] at h
      rcases h with rfl | h
      · exact Nat.le_refl _
      · have hn := ih h
        omega
    | _ =>
      simp only [numberFrom, Token.leaf?, List.filterMap_cons] at h
      have hn := ih h
      omega

theorem numberFrom_nodup (n : Nat) (tokens : List (Token L T S O C)) :
    ((numberFrom n tokens).filterMap Token.leaf?).Nodup := by
  induction tokens generalizing n with
  | nil => simp [numberFrom]
  | cons token tokens ih =>
    cases token with
    | leaf l =>
      simp only [numberFrom, Token.leaf?, List.filterMap_cons, List.nodup_cons]
      refine ⟨?_, ih (n + 1)⟩
      intro hmem
      have hn : n + 1 ≤ n := le_of_mem_numberFrom hmem
      omega
    | _ => simpa only [numberFrom, Token.leaf?, List.filterMap_cons] using ih (n + 1)

theorem leaves_nodup {tokens : List (Token L T S O C)} {g : Grammar T O C}
    {t : Tree (Nat × L) T S O C} (h : parse g Tree.actions (numberFrom 0 tokens) = some t) :
    t.leaves.Nodup := by
  rw [t.leaves_eq_filterMap, parse_tokens h]
  exact numberFrom_nodup 0 tokens

end Tokens

end OperatorPrecedence
