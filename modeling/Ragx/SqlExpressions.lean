import Ragx.SqlTokens

/-!
# SQL expressions

Expressions over the tokens, read with operators of five precedences: the comma binds least,
then `OR`, `AND`, equality with `LIKE` and `IN`, and the order comparisons. The parser takes one
token at a time and keeps the operands that wait for their right side. What it has read is what
the expression shows, so a text has at most one expression and an expression at most one text.
-/
namespace Ragx

inductive SqlBinary where
  | comma | «or» | «and» | like
  | sign (s : SqlSign)
deriving DecidableEq, Repr

inductive SqlExpr where
  | param
  | number (digits : List Char)
  | literal (text : List Char)
  | column (table column : List Char)
  | paren (e : SqlExpr)
  | call (function : List Char) (args : SqlExpr)
  | cast (e : SqlExpr) (type : List Char)
  | inList (e items : SqlExpr)
  | inEmpty (e : SqlExpr)
  | binary (op : SqlBinary) (left right : SqlExpr)
deriving DecidableEq, Repr

namespace SqlBinary

def token : SqlBinary → SqlToken
  | .comma => .comma
  | .or => .keyword .or
  | .and => .keyword .and
  | .like => .keyword .like
  | .sign s => .sign s

def precedence : SqlBinary → ℕ
  | .comma => 0
  | .or => 1
  | .and => 2
  | .like | .sign .eq | .sign .ne => 3
  | .sign _ => 4

def ofToken : SqlToken → Option SqlBinary
  | .comma => some .comma
  | .keyword .or => some .or
  | .keyword .and => some .and
  | .keyword .like => some .like
  | .sign s => some (.sign s)
  | _ => none

theorem token_of_ofToken {t : SqlToken} {op : SqlBinary} (h : ofToken t = some op) :
    op.token = t := by
  unfold ofToken at h
  split at h
  all_goals cases h
  all_goals rfl

end SqlBinary

/-- The tokens that an expression shows. -/
def SqlExpr.tokens : SqlExpr → List SqlToken
  | .param => [.param]
  | .number digits => [.number digits]
  | .literal text => [.literal text]
  | .column table name => [.word table, .dot, .word name]
  | .paren e => .lparen :: e.tokens ++ [.rparen]
  | .call function args => .word function :: .lparen :: args.tokens ++ [.rparen]
  | .cast e type => .keyword .cast :: .lparen :: e.tokens ++ [.keyword .as, .word type, .rparen]
  | .inList e items => e.tokens ++ .keyword .in :: .lparen :: items.tokens ++ [.rparen]
  | .inEmpty e => e.tokens ++ [.keyword .in, .lparen, .rparen]
  | .binary op left right => left.tokens ++ op.token :: right.tokens

namespace SqlParser

/-- Left sides that wait for their right sides, the innermost first. -/
abbrev Pending := List (SqlExpr × SqlBinary)

/-- What an open parenthesis is for. -/
inductive Opener where
  | group
  | call (function : List Char)
  | cast
  | «in» (left : SqlExpr)
deriving DecidableEq, Repr

/-- Where the parser is inside an operand. -/
inductive Operand where
  | missing
  | word (text : List Char)
  | dotted (table : List Char)
  | castWord
  | inWord (left : SqlExpr)
  | asWord (e : SqlExpr)
  | typed (e : SqlExpr) (type : List Char)
  | full (e : SqlExpr)
deriving DecidableEq, Repr

structure State where
  frames : List (Pending × Opener)
  pending : Pending
  operand : Operand
deriving DecidableEq, Repr

/-- Applies the waiting operators that bind at least as strongly. -/
def reduce (precedence : ℕ) : Pending → SqlExpr → Pending × SqlExpr
  | [], e => ([], e)
  | (left, op) :: pending, e =>
    if precedence ≤ op.precedence then reduce precedence pending (.binary op left e)
    else ((left, op) :: pending, e)

def reduceAll : Pending → SqlExpr → SqlExpr
  | [], e => e
  | (left, op) :: pending, e => reduceAll pending (.binary op left e)

/-- The expression that the closing parenthesis completes. -/
def Opener.close : Opener → SqlExpr → Option SqlExpr
  | .group, e => some (.paren e)
  | .call function, e => some (.call function e)
  | .cast, _ => none
  | .in left, e => some (.inList left e)

def State.enter (s : State) (opener : Opener) : State where
  frames := (s.pending, opener) :: s.frames
  pending := []
  operand := .missing

/-- The token after a complete operand. -/
def afterOperand (s : State) (e : SqlExpr) (t : SqlToken) : Option State :=
  match SqlBinary.ofToken t with
  | some op =>
    let r := reduce op.precedence s.pending e
    some { s with pending := (r.2, op) :: r.1, operand := .missing }
  | none =>
    match t, s.frames with
    | .keyword .in, _ =>
      let r := reduce 3 s.pending e
      some { s with pending := r.1, operand := .inWord r.2 }
    | .keyword .as, (_, .cast) :: _ =>
      some { s with pending := [], operand := .asWord (reduceAll s.pending e) }
    | .rparen, (pending, opener) :: frames =>
      (opener.close (reduceAll s.pending e)).map fun e => ⟨frames, pending, .full e⟩
    | _, _ => none

/-- A closing parenthesis in the place of an operand ends an empty list. -/
def closeEmpty (s : State) : Option State :=
  match s.pending, s.frames with
  | [], (pending, .in left) :: frames => some ⟨frames, pending, .full (.inEmpty left)⟩
  | _, _ => none

def startOperand (s : State) (t : SqlToken) : Option State :=
  match t with
  | .param => some { s with operand := .full .param }
  | .number digits => some { s with operand := .full (.number digits) }
  | .literal text => some { s with operand := .full (.literal text) }
  | .word text => some { s with operand := .word text }
  | .keyword .cast => some { s with operand := .castWord }
  | .lparen => some (s.enter .group)
  | .rparen => closeEmpty s
  | _ => none

/-- The parenthesis after the type of a cast. -/
def closeCast (s : State) (e : SqlExpr) (type : List Char) : Option State :=
  match s.pending, s.frames with
  | [], (pending, .cast) :: frames => some ⟨frames, pending, .full (.cast e type)⟩
  | _, _ => none

def step (s : State) (t : SqlToken) : Option State :=
  match s.operand with
  | .missing => startOperand s t
  | .word text =>
    match t with
    | .dot => some { s with operand := .dotted text }
    | .lparen => some (s.enter (.call text))
    | _ => none
  | .dotted table =>
    match t with
    | .word column => some { s with operand := .full (.column table column) }
    | _ => none
  | .castWord =>
    match t with
    | .lparen => some (s.enter .cast)
    | _ => none
  | .inWord left =>
    match t with
    | .lparen => some (s.enter (.in left))
    | _ => none
  | .asWord e =>
    match t with
    | .word type => some { s with operand := .typed e type }
    | _ => none
  | .typed e type =>
    match t with
    | .rparen => closeCast s e type
    | _ => none
  | .full e => afterOperand s e t

def run (s : State) (ts : List SqlToken) : Option State := ts.foldlM step s

def start : State := ⟨[], [], .missing⟩

/-- The expression, when the tokens end here. -/
def finish : State → Option SqlExpr
  | ⟨[], pending, .full e⟩ => some (reduceAll pending e)
  | _ => none

def parse (ts : List SqlToken) : Option SqlExpr := (run start ts).bind finish

theorem run_append (s : State) (ts us : List SqlToken) :
    run s (ts ++ us) = (run s ts).bind fun s' => run s' us :=
  List.foldlM_append

theorem run_cons (s : State) (t : SqlToken) (ts : List SqlToken) :
    run s (t :: ts) = (step s t).bind fun s' => run s' ts :=
  List.foldlM_cons

/-! ## What was read -/

def pendingTokens : Pending → List SqlToken
  | [] => []
  | (left, op) :: pending => pendingTokens pending ++ left.tokens ++ [op.token]

def Opener.tokens : Opener → List SqlToken
  | .group => [.lparen]
  | .call function => [.word function, .lparen]
  | .cast => [.keyword .cast, .lparen]
  | .in left => left.tokens ++ [.keyword .in, .lparen]

def Operand.tokens : Operand → List SqlToken
  | .missing => []
  | .word text => [.word text]
  | .dotted table => [.word table, .dot]
  | .castWord => [.keyword .cast]
  | .inWord left => left.tokens ++ [.keyword .in]
  | .asWord e => e.tokens ++ [.keyword .as]
  | .typed e type => e.tokens ++ [.keyword .as, .word type]
  | .full e => e.tokens

def framesTokens : List (Pending × Opener) → List SqlToken
  | [] => []
  | (pending, opener) :: frames => framesTokens frames ++ pendingTokens pending ++ opener.tokens

def State.tokens (s : State) : List SqlToken :=
  framesTokens s.frames ++ pendingTokens s.pending ++ s.operand.tokens

theorem reduce_tokens (precedence : ℕ) (pending : Pending) (e : SqlExpr) :
    pendingTokens (reduce precedence pending e).1 ++ (reduce precedence pending e).2.tokens =
      pendingTokens pending ++ e.tokens := by
  induction pending generalizing e with
  | nil => rfl
  | cons p pending ih =>
    obtain ⟨left, op⟩ := p
    unfold reduce
    split_ifs
    · rw [ih]
      simp [pendingTokens, SqlExpr.tokens]
    · rfl

theorem reduceAll_tokens (pending : Pending) (e : SqlExpr) :
    (reduceAll pending e).tokens = pendingTokens pending ++ e.tokens := by
  induction pending generalizing e with
  | nil => rfl
  | cons p pending ih =>
    obtain ⟨left, op⟩ := p
    rw [reduceAll, ih]
    simp [pendingTokens, SqlExpr.tokens]

theorem enter_tokens (s : State) (opener : Opener) :
    (s.enter opener).tokens =
      framesTokens s.frames ++ pendingTokens s.pending ++ opener.tokens := by
  simp [State.tokens, State.enter, framesTokens, pendingTokens, Operand.tokens]

theorem close_tokens {opener : Opener} {e e' : SqlExpr} (h : opener.close e = some e') :
    e'.tokens = opener.tokens ++ e.tokens ++ [.rparen] := by
  cases opener with
  | group =>
    cases h
    simp [SqlExpr.tokens, Opener.tokens]
  | call function =>
    cases h
    simp [SqlExpr.tokens, Opener.tokens]
  | cast => cases h
  | «in» left =>
    cases h
    simp [SqlExpr.tokens, Opener.tokens]

theorem closeEmpty_tokens {s s' : State} (h : closeEmpty s = some s') :
    s'.tokens = framesTokens s.frames ++ pendingTokens s.pending ++ [.rparen] := by
  unfold closeEmpty at h
  split at h
  · rename_i hpending hframes
    cases h
    simp [State.tokens, Operand.tokens, SqlExpr.tokens, hpending, hframes, framesTokens,
      pendingTokens, Opener.tokens]
  · cases h

theorem closeCast_tokens {s s' : State} {e : SqlExpr} {type : List Char}
    (h : closeCast s e type = some s') :
    s'.tokens = framesTokens s.frames ++ pendingTokens s.pending ++ e.tokens ++
      [.keyword .as, .word type, .rparen] := by
  unfold closeCast at h
  split at h
  · rename_i hpending hframes
    cases h
    simp [State.tokens, Operand.tokens, SqlExpr.tokens, hpending, hframes, framesTokens,
      pendingTokens, Opener.tokens]
  · cases h

theorem afterOperand_tokens {s s' : State} {e : SqlExpr} {t : SqlToken}
    (h : afterOperand s e t = some s') :
    s'.tokens = framesTokens s.frames ++ pendingTokens s.pending ++ e.tokens ++ [t] := by
  unfold afterOperand at h
  cases hop : SqlBinary.ofToken t with
  | some op =>
    rw [hop] at h
    cases h
    have hread := congrArg (framesTokens s.frames ++ · ++ [t])
      (reduce_tokens op.precedence s.pending e)
    simpa [State.tokens, pendingTokens, Operand.tokens, SqlBinary.token_of_ofToken hop] using hread
  | none =>
    simp only [hop] at h
    split at h
    · cases h
      have hread := congrArg (framesTokens s.frames ++ · ++ [.keyword .in])
        (reduce_tokens 3 s.pending e)
      simpa [State.tokens, Operand.tokens] using hread
    · rename_i hframes
      cases h
      simp [State.tokens, pendingTokens, Operand.tokens, reduceAll_tokens, hframes]
    · rename_i hframes
      obtain ⟨e', hclose, rfl⟩ := Option.map_eq_some_iff.mp h
      simp [State.tokens, Operand.tokens, framesTokens, close_tokens hclose, reduceAll_tokens,
        hframes]
    · cases h

/-- Every step shows the token that it takes. -/
theorem step_tokens {s s' : State} {t : SqlToken} (h : step s t = some s') :
    s'.tokens = s.tokens ++ [t] := by
  obtain ⟨frames, pending, operand⟩ := s
  unfold step at h
  cases operand with
  | missing =>
    simp only [startOperand] at h
    split at h
    case h_6 =>
      cases h
      rw [enter_tokens]
      simp [State.tokens, Operand.tokens, Opener.tokens]
    case h_7 =>
      rw [closeEmpty_tokens h]
      simp [State.tokens, Operand.tokens]
    all_goals cases h
    all_goals simp [State.tokens, Operand.tokens, SqlExpr.tokens]
  | word text =>
    simp only at h
    split at h
    · cases h
      simp [State.tokens, Operand.tokens]
    · cases h
      rw [enter_tokens]
      simp [State.tokens, Operand.tokens, Opener.tokens]
    · cases h
  | dotted table =>
    simp only at h
    split at h
    · cases h
      simp [State.tokens, Operand.tokens, SqlExpr.tokens]
    · cases h
  | castWord =>
    simp only at h
    split at h
    · cases h
      rw [enter_tokens]
      simp [State.tokens, Operand.tokens, Opener.tokens]
    · cases h
  | inWord left =>
    simp only at h
    split at h
    · cases h
      rw [enter_tokens]
      simp [State.tokens, Operand.tokens, Opener.tokens]
    · cases h
  | asWord e =>
    simp only at h
    split at h
    · cases h
      simp [State.tokens, Operand.tokens]
    · cases h
  | typed e type =>
    simp only at h
    split at h
    · rw [closeCast_tokens h]
      simp [State.tokens, Operand.tokens]
    · cases h
  | full e =>
    rw [afterOperand_tokens h]
    simp [State.tokens, Operand.tokens]

theorem run_tokens {s s' : State} {ts : List SqlToken} (h : run s ts = some s') :
    s'.tokens = s.tokens ++ ts := by
  induction ts generalizing s with
  | nil =>
    cases h
    simp
  | cons t ts ih =>
    rw [run_cons] at h
    obtain ⟨s₁, hstep, hrun⟩ := Option.bind_eq_some_iff.mp h
    rw [ih hrun, step_tokens hstep, List.append_assoc]
    rfl

/-- The parsed expression shows the tokens that were parsed. -/
theorem tokens_of_parse {ts : List SqlToken} {e : SqlExpr} (h : parse ts = some e) :
    e.tokens = ts := by
  obtain ⟨s, hrun, hfinish⟩ := Option.bind_eq_some_iff.mp h
  have htokens := run_tokens hrun
  obtain ⟨frames, pending, operand⟩ := s
  unfold finish at hfinish
  split at hfinish
  · rename_i hs
    cases hs
    cases hfinish
    rw [reduceAll_tokens]
    simpa [State.tokens, framesTokens, Operand.tokens, start, pendingTokens] using htokens
  · cases hfinish

/-! ## What is read back -/

end SqlParser

namespace SqlExpr

/-- How strongly the outermost operator binds. -/
def level : SqlExpr → ℕ
  | .binary op _ _ => op.precedence
  | .inList _ _ | .inEmpty _ => 3
  | _ => 5

/-- The operators group to the left, and a weaker one is never inside a stronger one. -/
def Levelled : SqlExpr → Prop
  | .paren e => e.Levelled
  | .call _ args => args.Levelled
  | .cast e _ => e.Levelled
  | .inList e items => e.Levelled ∧ 3 ≤ e.level ∧ items.Levelled
  | .inEmpty e => e.Levelled ∧ 3 ≤ e.level
  | .binary op left right =>
    left.Levelled ∧ right.Levelled ∧ op.precedence ≤ left.level ∧ op.precedence < right.level
  | _ => True

end SqlExpr

namespace SqlParser

theorem reduce_of_lt {precedence : ℕ} {pending : Pending} (e : SqlExpr)
    (h : ∀ y ∈ pending, y.2.precedence < precedence) :
    reduce precedence pending e = (pending, e) := by
  cases pending with
  | nil => rfl
  | cons y pending =>
    have hy := h y List.mem_cons_self
    exact if_neg (by omega)

theorem reduce_cons {precedence : ℕ} {op : SqlBinary} (h : precedence ≤ op.precedence)
    (left e : SqlExpr) (pending : Pending) :
    reduce precedence ((left, op) :: pending) e =
      reduce precedence pending (.binary op left e) :=
  if_pos h

theorem precedence_lt (op : SqlBinary) : op.precedence < 5 := by
  cases op with
  | sign s => cases s <;> decide
  | _ => decide

theorem ofToken_token (op : SqlBinary) : SqlBinary.ofToken op.token = some op := by
  cases op <;> rfl

/-- After its tokens an expression is held as one operand would be, for every operator that does
not bind more strongly and for every closing. -/
def Held (level : ℕ) (e : SqlExpr) : Prop :=
  ∀ frames pending, (∀ y ∈ pending, y.2.precedence < level) →
    ∃ pending' x, run ⟨frames, pending, .missing⟩ e.tokens = some ⟨frames, pending', .full x⟩ ∧
      (∀ precedence ≤ level, reduce precedence pending' x = reduce precedence pending e) ∧
      reduceAll pending' x = reduceAll pending e

theorem held_of_full {level : ℕ} {e : SqlExpr}
    (h : ∀ frames pending,
      run ⟨frames, pending, .missing⟩ e.tokens = some ⟨frames, pending, .full e⟩) :
    Held level e := by
  intro frames pending _
  exact ⟨pending, e, h frames pending, fun _ _ => rfl, rfl⟩

/-- An expression between parentheses is held by what opened them. -/
theorem run_inside {level : ℕ} {e : SqlExpr} (he : Held level e)
    (frames : List (Pending × Opener)) :
    ∃ pending' x, run ⟨frames, [], .missing⟩ e.tokens = some ⟨frames, pending', .full x⟩ ∧
      reduceAll pending' x = e := by
  obtain ⟨pending', x, hrun, _, hall⟩ := he frames [] (by simp)
  exact ⟨pending', x, hrun, hall⟩

theorem run_close {level : ℕ} {e e' : SqlExpr} (he : Held level e) {opener : Opener}
    (hclose : opener.close e = some e') (frames : List (Pending × Opener)) (pending : Pending) :
    run ⟨(pending, opener) :: frames, [], .missing⟩ (e.tokens ++ [.rparen]) =
      some ⟨frames, pending, .full e'⟩ := by
  obtain ⟨pending', x, hrun, hall⟩ := run_inside he ((pending, opener) :: frames)
  rw [run_append, hrun, Option.bind_some]
  simp [run, step, afterOperand, SqlBinary.ofToken, hall, hclose]

/-- `IN` after an expression. -/
theorem run_in {e : SqlExpr} (he : Held 3 e) {pending : Pending}
    (hpending : ∀ y ∈ pending, y.2.precedence < 3) (frames : List (Pending × Opener)) :
    run ⟨frames, pending, .missing⟩ (e.tokens ++ [.keyword .in, .lparen]) =
      some ⟨(pending, .in e) :: frames, [], .missing⟩ := by
  obtain ⟨pending', x, hrun, hreduce, _⟩ := he frames pending hpending
  have hread := hreduce 3 (Nat.le_refl 3)
  rw [reduce_of_lt e hpending] at hread
  rw [run_append, hrun, Option.bind_some]
  simp [run, step, afterOperand, SqlBinary.ofToken, hread, State.enter]

theorem Held.mono {level level' : ℕ} {e : SqlExpr} (h : Held level e) (hle : level' ≤ level) :
    Held level' e := by
  intro frames pending hpending
  obtain ⟨pending', x, hrun, hreduce, hall⟩ :=
    h frames pending fun y hy => Nat.lt_of_lt_of_le (hpending y hy) hle
  exact ⟨pending', x, hrun, fun p hp => hreduce p (Nat.le_trans hp hle), hall⟩

/-- A binary expression is held by its left side and its operator while the right side is read. -/
theorem held_binary {op : SqlBinary} {left right : SqlExpr} (hleft : Held op.precedence left)
    (hright : Held (op.precedence + 1) right) :
    Held op.precedence (.binary op left right) := by
  intro frames pending hpending
  obtain ⟨pending₁, x, hrunLeft, hreduceLeft, _⟩ := hleft frames pending hpending
  have hread := hreduceLeft op.precedence (Nat.le_refl _)
  rw [reduce_of_lt left hpending] at hread
  have hstep : step ⟨frames, pending₁, .full x⟩ op.token =
      some ⟨frames, (left, op) :: pending, .missing⟩ := by
    simp only [step, afterOperand, ofToken_token, hread]
  have hwaiting : ∀ y ∈ (left, op) :: pending, y.2.precedence < op.precedence + 1 := by
    intro y hy
    rcases List.mem_cons.mp hy with rfl | hy
    · exact Nat.lt_succ_self _
    · exact Nat.lt_succ_of_lt (hpending y hy)
  obtain ⟨pending₂, z, hrunRight, hreduceRight, hall⟩ := hright frames _ hwaiting
  refine ⟨pending₂, z, ?_, ?_, hall⟩
  · rw [SqlExpr.tokens, run_append, hrunLeft, Option.bind_some, run_cons, hstep,
      Option.bind_some, hrunRight]
  · intro precedence hle
    rw [hreduceRight precedence (Nat.le_succ_of_le hle), reduce_cons hle]

/-- A levelled expression is held at its level. -/
theorem held_of_levelled {e : SqlExpr} (h : e.Levelled) : Held e.level e := by
  induction e with
  | param => exact held_of_full fun _ _ => rfl
  | number digits => exact held_of_full fun _ _ => rfl
  | literal text => exact held_of_full fun _ _ => rfl
  | column table name => exact held_of_full fun _ _ => rfl
  | paren e ih =>
    refine held_of_full fun frames pending => ?_
    have hopen : step ⟨frames, pending, .missing⟩ .lparen =
        some ⟨(pending, .group) :: frames, [], .missing⟩ := rfl
    rw [SqlExpr.tokens, List.cons_append, run_cons, hopen, Option.bind_some]
    exact run_close (ih h) rfl frames pending
  | call function args ih =>
    refine held_of_full fun frames pending => ?_
    have hopen : run ⟨frames, pending, .missing⟩ [.word function, .lparen] =
        some ⟨(pending, .call function) :: frames, [], .missing⟩ := rfl
    have htokens : (SqlExpr.call function args).tokens =
        [.word function, .lparen] ++ (args.tokens ++ [.rparen]) := rfl
    rw [htokens, run_append, hopen, Option.bind_some]
    exact run_close (ih h) rfl frames pending
  | cast e type ih =>
    refine held_of_full fun frames pending => ?_
    have hopen : run ⟨frames, pending, .missing⟩ [.keyword .cast, .lparen] =
        some ⟨(pending, .cast) :: frames, [], .missing⟩ := rfl
    have htokens : (SqlExpr.cast e type).tokens =
        [.keyword .cast, .lparen] ++ (e.tokens ++ [.keyword .as, .word type, .rparen]) := rfl
    obtain ⟨pending', x, hrun, hall⟩ := run_inside (ih h) ((pending, .cast) :: frames)
    rw [htokens, run_append, hopen, Option.bind_some, run_append, hrun, Option.bind_some]
    simp [run, step, afterOperand, SqlBinary.ofToken, hall, closeCast]
  | inList e items ihe ihitems =>
    obtain ⟨he, hlevel, hitems⟩ := h
    intro frames pending hpending
    have htokens : (SqlExpr.inList e items).tokens =
        (e.tokens ++ [.keyword .in, .lparen]) ++ (items.tokens ++ [.rparen]) := by
      simp [SqlExpr.tokens]
    refine ⟨pending, .inList e items, ?_, fun _ _ => rfl, rfl⟩
    rw [htokens, run_append, run_in ((ihe he).mono hlevel) hpending, Option.bind_some]
    exact run_close (ihitems hitems) rfl frames pending
  | inEmpty e ih =>
    obtain ⟨he, hlevel⟩ := h
    intro frames pending hpending
    have htokens : (SqlExpr.inEmpty e).tokens =
        (e.tokens ++ [.keyword .in, .lparen]) ++ [.rparen] := by
      simp [SqlExpr.tokens]
    refine ⟨pending, .inEmpty e, ?_, fun _ _ => rfl, rfl⟩
    rw [htokens, run_append, run_in ((ih he).mono hlevel) hpending]
    rfl
  | binary op left right ihleft ihright =>
    obtain ⟨hleft, hright, hle, hlt⟩ := h
    exact held_binary ((ihleft hleft).mono hle) ((ihright hright).mono hlt)

/-- Exactly the tokens of a levelled expression parse to it. -/
theorem parse_eq_some_iff {e : SqlExpr} (h : e.Levelled) {ts : List SqlToken} :
    parse ts = some e ↔ ts = e.tokens := by
  constructor
  · intro hparse
    exact (tokens_of_parse hparse).symm
  · rintro rfl
    obtain ⟨pending, x, hrun, _, hall⟩ := held_of_levelled h [] [] (by simp)
    have hstart : run start e.tokens = some ⟨[], pending, .full x⟩ := hrun
    have hx : reduceAll pending x = e := hall
    rw [parse, hstart, Option.bind_some, finish, hx]

end SqlParser

end Ragx
