-- SUMMARY: Reading the rendering of an expression gives the expression back.
import HeaderForms.Proofs.Expr.Reading

/-!
# Reading expressions back

Rendering an expression that tokens hold and reading the lexemes gives the expression back. The
expression has the shape that the grammar gives, so the induction is on shapes: each construct is
readable when its parts are. A list is rendered in one pair of brackets, and so the tail of a list
needs to be readable item by item as well.

A number keeps its sign, a string is one lexeme, and a list whose tail is a list is one list. So the
lexemes are not always those that the expression was read from, and expressions that were written
differently can be the same.
-/

namespace HeaderForms

open HeaderForms.Parser HeaderForms.Render

namespace Expr

/-! ## Primary expressions -/

theorem reads_strings {text : String} {follow : Option Lexeme → Prop}
    (hfollow : ∀ ahead, follow ahead → Follows 10 ahead) :
    Reads strings [.string text] follow text := by
  intro tokens rest htokens hnext
  obtain ⟨token, behind, rfl, hlexeme, hbehind⟩ := List.map_eq_cons_iff.1 htokens
  rw [List.map_eq_nil_iff.1 hbehind, List.singleton_append]
  -- the token behind is no string, so the strings ahead are this one
  cases rest with
  | nil =>
    simp [strings, hlexeme]
    rfl
  | cons next rest =>
    have hstring : ∀ other, next.lexeme ≠ .string other := fun other hother =>
      (hfollow _ hnext).ne_some rfl (Nat.le_refl 10) (congrArg some hother)
    simp [strings, hlexeme]
    rfl

theorem readable_atom (name : String) : Readable (.atom name) :=
  readable_of_reads_primary rfl rfl rfl fun _ _ _ _ => leads_peek (leads_skip Reads.pure)

theorem readable_var (name : String) : Readable (.var name) :=
  readable_of_reads_primary rfl rfl rfl fun _ _ _ _ => leads_peek (leads_skip Reads.pure)

theorem readable_char (value : Char) : Readable (.char value) :=
  readable_of_reads_primary rfl rfl rfl fun _ _ _ _ => leads_peek (leads_skip Reads.pure)

theorem readable_string (text : String) : Readable (.string text) :=
  readable_of_reads_primary rfl rfl rfl fun _ _ _ _ =>
    leads_peek (reads_strings fun _ hahead => hahead).bind_pure

theorem readable_nil : Readable .nil :=
  readable_of_reads_primary rfl rfl rfl fun _ _ _ _ =>
    leads_peek (leads_skip (leads_eat Reads.pure))

theorem readable_cons {head tail : Expr} (hhead : Readable head) (htail : Continues tail) :
    Readable (.cons head tail) := by
  obtain ⟨items, last, rfl, hclosing, hitems, hlast⟩ := htail
  refine readable_of_reads_primary rfl (by rw [render, hclosing]) rfl fun limit depth hlimit _ => ?_
  exact leads_peek (leads_skip (reads_listRest hhead hitems hlast hlimit (Nat.le_succ limit)))

theorem readable_comprehension {body : Expr} {qualifiers : List Qualifier} (hbody : Readable body)
    (hparts : ∀ qualifier ∈ qualifiers, ∀ part ∈ qualifier.parts, Readable part) :
    Readable (.comprehension body qualifiers) := by
  refine readable_of_reads_primary rfl (by rw [render, qualifierRenders_eq_map]) rfl
    fun limit depth hlimit _ => ?_
  exact leads_peek (leads_skip (reads_listRest_comprehension hbody hparts hlimit
    (Nat.le_succ limit)))

theorem readable_tuple {items : List Expr} (hitems : ∀ item ∈ items, Readable item) :
    Readable (.tuple items) := by
  refine readable_of_reads_primary rfl (by rw [render, renders_eq_map]) rfl
    fun limit depth hlimit _ => ?_
  rw [List.length_append] at hlimit
  refine leads_peek (leads_skip ?_)
  exact (reads_items hitems closes_brace (Nat.le_of_add_right_le hlimit) (Nat.le_succ limit)).bind_pure

theorem readable_binary {elements : List BinElement}
    (hsigns : ∀ element ∈ elements, element.SignKept)
    (hparts : ∀ element ∈ elements, ∀ part ∈ element.parts, Readable part) :
    Readable (.binary elements) := by
  refine readable_of_reads_primary rfl (by rw [render, elementRenders_eq_map]) rfl
    fun limit depth hlimit hdepth => ?_
  rw [List.length_append] at hlimit hdepth
  exact leads_peek (leads_skip (reads_binaryRest hsigns hparts (Nat.le_of_add_right_le hlimit)
    (Nat.le_of_add_right_le hdepth)))

theorem readable_map {fields : List MapField}
    (hparts : ∀ field ∈ fields, ∀ part ∈ field.parts, Readable part) : Readable (.map fields) := by
  refine readable_of_reads_primary rfl (by rw [render, mapRenders_eq_map]) rfl
    fun limit depth hlimit _ => ?_
  rw [List.length_cons, List.length_append] at hlimit
  exact leads_peek (leads_skip (reads_hashRest_map hparts (by omega) (Nat.le_succ limit)))

theorem readable_recordNew {name : String} {fields : List FieldValue}
    (hvalues : ∀ field ∈ fields, Readable field.value) : Readable (.recordNew name fields) := by
  refine readable_of_reads_primary rfl (by rw [render, fieldRenders_eq_map]) rfl
    fun limit depth hlimit _ => ?_
  rw [List.length_cons, List.length_cons, List.length_append] at hlimit
  exact leads_peek (leads_skip (reads_hashRest_record hvalues (by omega) (Nat.le_succ limit)))

theorem readable_recordIndex (name field : String) : Readable (.recordIndex name field) :=
  readable_of_reads_primary rfl rfl rfl fun _ _ _ _ =>
    leads_peek (leads_skip reads_hashRest_access)

theorem readable_block {body : List Expr} (hne : body ≠ []) (hbody : ∀ expr ∈ body, Readable expr) :
    Readable (.block body) := by
  refine readable_of_reads_primary rfl (by rw [render, renders_eq_map]) rfl
    fun limit depth hlimit _ => ?_
  rw [List.length_append] at hlimit
  have hread : Reads (exprs (limit + 1) (exprWithin limit)) (sequence body)
      (fun ahead => ahead = some (.keyword .end_)) body := by
    refine reads_exprs hbody hne (Nat.le_of_add_right_le hlimit) (Nat.le_succ limit) ?_
    rintro ahead rfl
    exact ⟨follows_of_joins?_eq_none rfl, by simp⟩
  exact leads_peek (leads_skip (hread.bind (leads_expectKeyword Reads.pure) fun _ _ => rfl))

/-! ## Clauses -/

theorem readable_case {subject : Expr} {clauses : List Clause} (hsubject : Readable subject)
    (hne : clauses ≠ []) (hclauses : ∀ clause ∈ clauses, ClauseReadable clause)
    (hpatterns : ∀ clause ∈ clauses, ∃ pattern, clause.patterns = [pattern]) :
    Readable (.case_ subject clauses) := by
  refine readable_of_reads_primary rfl (by rw [render, clauseRenders_eq_map]) rfl
    fun limit depth hlimit _ => ?_
  rw [List.length_append, List.length_cons, List.length_append] at hlimit
  have hlength : (semicolons (clauses.map (Clause.render caseHead))).length ≤ limit := by omega
  have hread : Reads (exprWithin limit) subject.render (Follows 0) subject :=
    hsubject.reads_nested (by omega)
  have hitems : ∀ clause ∈ clauses, Reads (caseClause (limit + 1) (exprWithin limit))
      (clause.render caseHead) EndsClause clause := by
    rintro ⟨patterns, guards, body⟩ hmem
    obtain ⟨pattern, rfl⟩ := hpatterns _ hmem
    have hclause := length_le_intercalate (.punct .semicolon) (Clause.render caseHead) hmem
    exact reads_caseClause (hclauses _ hmem) (Nat.le_trans hclause hlength) (Nat.le_succ limit)
  refine leads_peek (leads_skip (hread.bind (leads_expectKeyword ?_) fun _ _ => ?_))
  · exact (reads_clausesToEnd hitems hne (Nat.le_succ_of_le hlength)).bind_pure
  · exact follows_of_joins?_eq_none rfl

theorem readable_if {clauses : List Clause} (hne : clauses ≠ [])
    (hclauses : ∀ clause ∈ clauses, ClauseReadable clause)
    (hguards : ∀ clause ∈ clauses, clause.patterns = [] ∧ clause.guards ≠ []) :
    Readable (.if_ clauses) := by
  refine readable_of_reads_primary rfl (by rw [render, clauseRenders_eq_map]) rfl
    fun limit depth hlimit _ => ?_
  rw [List.length_append] at hlimit
  have hlength := Nat.le_of_add_right_le hlimit
  have hitems : ∀ clause ∈ clauses, Reads (ifClause (limit + 1) (exprWithin limit))
      (clause.render ifHead) EndsClause clause := by
    rintro ⟨patterns, guards, body⟩ hmem
    obtain ⟨rfl, hguard⟩ := hguards _ hmem
    have hclause := length_le_intercalate (.punct .semicolon) (Clause.render ifHead) hmem
    exact reads_ifClause (hclauses _ hmem) hguard (Nat.le_trans hclause hlength)
      (Nat.le_succ limit)
  exact leads_peek (leads_skip
    (reads_clausesToEnd hitems hne (Nat.le_succ_of_le hlength)).bind_pure)

theorem exists_semicolons_funHead {clauses : List Clause} (hne : clauses ≠ []) :
    ∃ more, semicolons (clauses.map (Clause.render funHead)) ++ [.keyword .end_] =
      .punct .openParen :: more := by
  obtain ⟨⟨patterns, guards, body⟩, clauses, rfl⟩ := List.exists_cons_of_ne_nil hne
  obtain ⟨more, hmore⟩ := exists_intercalate_cons (.punct .semicolon) (.punct .openParen) _
    (clauses.map (Clause.render funHead))
  rw [List.map_cons, Clause.render, funHead, List.cons_append, semicolons, hmore]
  exact ⟨_, rfl⟩

theorem readable_fun {clauses : List Clause} (hne : clauses ≠ [])
    (hclauses : ∀ clause ∈ clauses, ClauseReadable clause) : Readable (.fun_ clauses) := by
  refine readable_of_reads_primary rfl (by rw [render, clauseRenders_eq_map]) rfl
    fun limit depth hlimit _ => ?_
  rw [List.length_append] at hlimit
  have hlength := Nat.le_of_add_right_le hlimit
  have hitems : ∀ clause ∈ clauses, Reads (funClause (limit + 1) (exprWithin limit))
      (clause.render funHead) EndsClause clause := by
    rintro ⟨patterns, guards, body⟩ hmem
    have hclause := length_le_intercalate (.punct .semicolon) (Clause.render funHead) hmem
    exact reads_funClause (hclauses _ hmem) (Nat.le_trans hclause hlength) (Nat.le_succ limit)
  have hread : Reads (clausesToEnd (limit + 1) (funClause (limit + 1) (exprWithin limit)))
      (semicolons (clauses.map (Clause.render funHead)) ++ [.keyword .end_]) (Follows 10) clauses :=
    reads_clausesToEnd hitems hne (Nat.le_succ_of_le hlength)
  obtain ⟨more, hmore⟩ := exists_semicolons_funHead hne
  rw [hmore] at hread ⊢
  exact leads_peek (leads_skip (leads_peekTwo_first fun second => hread.bind_pure))

theorem reads_expectArity {arity : Nat} {follow : Option Lexeme → Prop} :
    Reads expectArity [.integer arity] follow arity := by
  have hread : Reads expectInteger (ofInt arity) follow arity := reads_expectInteger arity
  rw [ofInt, if_neg (Int.not_lt.2 (Int.natCast_nonneg arity)), Int.natAbs_natCast] at hread
  have hpure : Reads (do
      if (arity : Int) < 0 then fail (.badArity arity)
      return (arity : Int).toNat) [] follow arity := by
    rw [if_neg (Int.not_lt.2 (Int.natCast_nonneg arity)), Int.toNat_natCast]
    exact Reads.pure
  exact hread.bind hpure fun _ hahead => hahead

theorem readable_funRef (module : Option String) (name : String) (arity : Nat) :
    Readable (.funRef module name arity) := by
  cases module with
  | none =>
    refine readable_of_reads_primary rfl rfl rfl fun _ _ _ _ => ?_
    exact leads_peek (leads_skip (leads_peekTwo (leads_skipTwo reads_expectArity.bind_pure)))
  | some module =>
    refine readable_of_reads_primary rfl rfl rfl fun _ _ _ _ => ?_
    refine leads_peek (leads_skip (leads_peekTwo (leads_skipTwo (leads_expectAtom ?_))))
    exact leads_expectPunct reads_expectArity.bind_pure

/-! ## Calls and accesses -/

/-- What is read behind an expression makes one more round of calls and accesses. -/
theorem readable_of_step {expr base : Expr} {lexeme : Lexeme} {behind : List Lexeme}
    (hbase : Readable base) (hlevel : expr.level = 9)
    (hrender : expr.render = base.renderAt 9 ++ lexeme :: behind)
    (hjoins : lexeme.joins? = some 9)
    (hstep : ∀ limit rounds, behind.length ≤ limit →
      Leads (postfixFrom (limit + 1) (exprWithin limit) (rounds + 1) base) (lexeme :: behind)
        (Follows 10) (postfixFrom (limit + 1) (exprWithin limit) rounds expr)) :
    Readable expr := by
  refine readable_of_readsAt ?_ (by rw [hlevel]; decide) fun limit hlimit => ?_
  · rw [hlevel, hrender]
    exact (hbase.opensAt (by decide)).append _
  · rw [hrender] at hlimit
    rw [hlevel, hrender]
    have hlength := hlimit
    rw [List.length_append, List.length_cons] at hlength
    have hread : ReadsAt limit (base.renderAt 9) base 9 :=
      hbase.readsAt limit 9 (by decide) (by omega)
    exact ReadsAccess.step hread hjoins (fun rounds => hstep limit rounds (by omega)) hlimit

theorem readable_call {function : Expr} {args : List Expr} (hfunction : Readable function)
    (hargs : ∀ arg ∈ args, Readable arg) : Readable (.call function args) := by
  refine readable_of_step hfunction rfl (by rw [render, renders_eq_map]; rfl) rfl
    fun limit rounds hlimit => ?_
  rw [List.length_append] at hlimit
  have hread : Reads (arguments (limit + 1) (exprWithin limit))
      (.punct .openParen :: (sequence args ++ [.punct .closeParen])) (Follows 10) args :=
    reads_arguments hargs (Nat.le_of_add_right_le hlimit) (Nat.le_succ limit)
  refine leads_eat_cons_ne (by simp) (leads_atPunct ?_)
  exact Leads.bind hread

theorem readable_remoteCall {module function : Expr} {args : List Expr} (hmodule : Readable module)
    (hfunction : Readable function) (hargs : ∀ arg ∈ args, Readable arg) :
    Readable (.remoteCall module function args) := by
  have hrender : (remoteCall module function args).render = module.renderAt 9 ++
      .punct .colon :: (function.renderAt 10 ++
        .punct .openParen :: (sequence args ++ [.punct .closeParen])) := by
    rw [render, renders_eq_map]
    rfl
  refine readable_of_step hmodule rfl hrender rfl fun limit rounds hlimit => ?_
  rw [List.length_append, List.length_cons, List.length_append] at hlimit
  have hname : Reads (primary (limit + 1) (exprWithin limit)) (function.renderAt 10) (Follows 10)
      function :=
    hfunction.reads_primary (by omega) (by omega)
  have hread : Reads (arguments (limit + 1) (exprWithin limit))
      (.punct .openParen :: (sequence args ++ [.punct .closeParen])) (Follows 10) args :=
    reads_arguments hargs (by omega) (Nat.le_succ limit)
  refine leads_eat (hname.bind (Leads.bind hread) fun _ _ => ?_)
  exact follows_of_joins?_eq_some rfl (by decide)

theorem readable_mapUpdate {base : Expr} {fields : List MapField} (hbase : Readable base)
    (hparts : ∀ field ∈ fields, ∀ part ∈ field.parts, Readable part) :
    Readable (.mapUpdate base fields) := by
  refine readable_of_step hbase rfl (by rw [render, mapRenders_eq_map]; rfl) rfl
    fun limit rounds hlimit => ?_
  rw [List.length_cons, List.length_append] at hlimit
  refine leads_eat_cons_ne (by simp) (leads_atPunct_cons_ne (by simp) (leads_eat ?_))
  exact Leads.bind (reads_hashRest_map hparts (by omega) (Nat.le_succ limit))

theorem readable_recordUpdate {record : Expr} {name : String} {fields : List FieldValue}
    (hrecord : Readable record) (hvalues : ∀ field ∈ fields, Readable field.value) :
    Readable (.recordUpdate record name fields) := by
  refine readable_of_step hrecord rfl (by rw [render, fieldRenders_eq_map]; rfl) rfl
    fun limit rounds hlimit => ?_
  rw [List.length_cons, List.length_cons, List.length_append] at hlimit
  refine leads_eat_cons_ne (by simp) (leads_atPunct_cons_ne (by simp) (leads_eat ?_))
  exact Leads.bind (reads_hashRest_record hvalues (by omega) (Nat.le_succ limit))

theorem readable_recordField {record : Expr} (name field : String) (hrecord : Readable record) :
    Readable (.recordField record name field) := by
  refine readable_of_step hrecord rfl (by rw [render]; rfl) rfl fun limit rounds _ => ?_
  refine leads_eat_cons_ne (by simp) (leads_atPunct_cons_ne (by simp) (leads_eat ?_))
  exact Leads.bind reads_hashRest_access

/-! ## Operators -/

theorem readable_unaryOp {op : UnaryOp} {operand : Expr}
    (hkept : signed op operand = .unaryOp op operand) (hoperand : Readable operand) :
    Readable (.unaryOp op operand) :=
  readable_of_sign op rfl rfl hkept hoperand

theorem leftPosition_le (op : BinaryOp) : leftPosition op.level ≤ 10 := by
  cases op <;> decide

theorem rightPosition_le (op : BinaryOp) : rightPosition op.level ≤ 10 := by
  cases op <;> decide

/-- Each operator is read at its level: to the right, not at all, or to the left. -/
theorem readsAt_binaryOp {limit : Nat} {left right : Expr} (op : BinaryOp) (hleft : Readable left)
    (hright : Readable right)
    (hlimit : (left.renderAt (leftPosition op.level) ++
      op.lexeme :: right.renderAt (rightPosition op.level)).length ≤ limit + 1) :
    ReadsAt limit (left.renderAt (leftPosition op.level) ++
      op.lexeme :: right.renderAt (rightPosition op.level)) (.binaryOp op left right) op.level := by
  have hlength := hlimit
  rw [List.length_append, List.length_cons] at hlength
  have hopen := hleft.readsAt limit (leftPosition op.level) (leftPosition_le op) (by omega)
  have hclosed := hopen.reads (leftPosition_le op) (by omega)
  have hopen' := hright.readsAt limit (rightPosition op.level) (rightPosition_le op) (by omega)
  have hclosed' := hopen'.reads (rightPosition_le op) (by omega)
  cases op with
  | send => exact ReadsRight.join joins_matchOp? hclosed rfl hopen'
  | orelse => exact ReadsRight.join joins_orelseOp? hclosed rfl hopen'
  | andalso => exact ReadsRight.join joins_andalsoOp? hclosed rfl hopen'
  | equal | differ | atMost | less | atLeast | greater | exactEqual | exactDiffer =>
    exact reads_comparisonLevel_join hclosed rfl hclosed'
  | append | subtract => exact ReadsRight.join joins_listOp? hclosed rfl hopen'
  | plus | minus | bor | bxor | bsl | bsr | or_ | xor =>
    exact ReadsLeft.join joins_additiveOp? hopen rfl hclosed' hlimit
  | times | divide | div | rem | band | and_ =>
    exact ReadsLeft.join joins_multiplicativeOp? hopen rfl hclosed' hlimit

theorem readable_binaryOp {left right : Expr} (op : BinaryOp) (hleft : Readable left)
    (hright : Readable right) : Readable (.binaryOp op left right) := by
  refine readable_of_readsAt ?_ (Nat.le_trans (le_leftPosition op.level) (leftPosition_le op))
    fun limit hlimit => readsAt_binaryOp op hleft hright hlimit
  exact ((hleft.opensAt (leftPosition_le op)).mono (le_leftPosition op.level)).append _

theorem readable_match {pattern value : Expr} (hpattern : Readable pattern)
    (hvalue : Readable value) : Readable (.match_ pattern value) := by
  refine readable_of_readsAt ?_ (by decide : 1 ≤ 10) fun limit hlimit => ?_
  · exact ((hpattern.opensAt (by decide : 2 ≤ 10)).mono (Nat.le_succ 1)).append _
  · change (pattern.renderAt 2 ++ .punct .equals :: value.renderAt 1).length ≤ limit + 1 at hlimit
    rw [List.length_append, List.length_cons] at hlimit
    have hleft := hpattern.reads (by decide : 2 ≤ 10) (show _ ≤ limit + 1 by omega)
    have hright := hvalue.readsAt limit 1 (by decide) (by omega)
    exact ReadsRight.join joins_matchOp? hleft rfl hright

theorem readable_catch {body : Expr} (hbody : Readable body) : Readable (.catch_ body) := by
  refine readable_of_readsAt (opens_cons rfl (Nat.le_refl 0)) (Nat.zero_le 10) fun limit hlimit => ?_
  exact leads_eat (hbody.reads_nested (Nat.le_of_succ_le_succ hlimit)).bind_pure

/-! ## All expressions -/

variable {good : Lexeme → Prop} {expr : Expr}

/-- Every expression of the shape that the grammar gives is readable, and so are the items of a list
that goes on with it. -/
theorem readable_and_continues (h : expr.Shaped good) : Readable expr ∧ Continues expr := by
  have hboth : ∀ {expr : Expr}, Readable expr → (∀ head tail, expr ≠ .cons head tail) →
      Readable expr ∧ Continues expr :=
    fun hread hcons => ⟨hread, hread.continues hcons⟩
  induction h with
  | atom => exact hboth (readable_atom _) nofun
  | var => exact hboth (readable_var _) nofun
  | integer => exact hboth (readable_integer _) nofun
  | float => exact hboth (readable_float _) nofun
  | char => exact hboth (readable_char _) nofun
  | string => exact hboth (readable_string _) nofun
  | nil => exact hboth readable_nil nofun
  | cons _ _ hhead htail => exact ⟨readable_cons hhead.1 htail.2, continues_cons hhead.1 htail.2⟩
  | tuple _ hitems => exact hboth (readable_tuple fun item hmem => (hitems item hmem).1) nofun
  | binary hsigns _ _ hparts =>
    exact hboth (readable_binary hsigns fun element hmem part hpart =>
      (hparts element hmem part hpart).1) nofun
  | map _ hparts =>
    exact hboth (readable_map fun field hmem part hpart => (hparts field hmem part hpart).1) nofun
  | mapUpdate _ _ hbase hparts =>
    exact hboth (readable_mapUpdate hbase.1 fun field hmem part hpart =>
      (hparts field hmem part hpart).1) nofun
  | recordNew _ hvalues =>
    exact hboth (readable_recordNew fun field hmem => (hvalues field hmem).1) nofun
  | recordUpdate _ _ hrecord hvalues =>
    exact hboth (readable_recordUpdate hrecord.1 fun field hmem => (hvalues field hmem).1) nofun
  | recordField _ hrecord => exact hboth (readable_recordField _ _ hrecord.1) nofun
  | recordIndex => exact hboth (readable_recordIndex _ _) nofun
  | binaryOp _ _ hleft hright => exact hboth (readable_binaryOp _ hleft.1 hright.1) nofun
  | unaryOp hkept _ hoperand => exact hboth (readable_unaryOp hkept hoperand.1) nofun
  | match_ _ _ hpattern hvalue => exact hboth (readable_match hpattern.1 hvalue.1) nofun
  | call _ _ hfunction hargs =>
    exact hboth (readable_call hfunction.1 fun arg hmem => (hargs arg hmem).1) nofun
  | remoteCall _ _ _ hmodule hfunction hargs =>
    exact hboth (readable_remoteCall hmodule.1 hfunction.1 fun arg hmem => (hargs arg hmem).1) nofun
  | block hne _ hbody => exact hboth (readable_block hne fun expr hmem => (hbody expr hmem).1) nofun
  | case_ _ hne hcomplete hpatterns _ hsubject hparts =>
    refine hboth (readable_case hsubject.1 hne (fun clause hmem => ?_) hpatterns) nofun
    exact ⟨hcomplete clause hmem, fun part hpart => (hparts clause hmem part hpart).1⟩
  | if_ hne hcomplete hguards _ hparts =>
    refine hboth (readable_if hne (fun clause hmem => ?_) hguards) nofun
    exact ⟨hcomplete clause hmem, fun part hpart => (hparts clause hmem part hpart).1⟩
  | fun_ hne hcomplete _ hparts =>
    refine hboth (readable_fun hne fun clause hmem => ?_) nofun
    exact ⟨hcomplete clause hmem, fun part hpart => (hparts clause hmem part hpart).1⟩
  | funRef => exact hboth (readable_funRef _ _ _) nofun
  | catch_ _ hbody => exact hboth (readable_catch hbody.1) nofun
  | comprehension _ _ hbody hparts =>
    exact hboth (readable_comprehension hbody.1 fun qualifier hmem part hpart =>
      (hparts qualifier hmem part hpart).1) nofun

/-! ## The expression in front of an end marker -/

theorem reads_expectEnd : Reads expectEnd [.dot] (fun ahead => ahead = none) () := by
  intro tokens rest htokens hnext
  obtain ⟨token, behind, rfl, hlexeme, hbehind⟩ := List.map_eq_cons_iff.1 htokens
  obtain rfl := List.map_eq_nil_iff.1 hbehind
  obtain rfl := List.head?_eq_none_iff.1 (Option.map_eq_none_iff.1 hnext)
  simp only [expectEnd, eat, Bind.bind, StateT.bind, List.singleton_append, if_pos hlexeme]
  rfl

theorem ofTokens_of_readable (h : Readable expr) {printed : List Token}
    (hprinted : printed.map (·.lexeme) = expr.render ++ [.dot]) : ofTokens printed = .ok expr := by
  have hlength : printed.length = expr.render.length + 1 := by
    rw [← List.length_map (fun token : Token => token.lexeme), hprinted, List.length_append,
      List.length_singleton]
  have hsequence : sequence [expr] = expr.render := by
    rw [sequence_cons, following, List.append_nil]
  have hexprs : Reads (exprs (printed.length + 1) (exprWithin (printed.length + 1)))
      expr.render (fun ahead => ahead = some .dot) [expr] := by
    rw [← hsequence] at hlength ⊢
    refine reads_exprs (List.forall_mem_singleton.2 h) (List.cons_ne_nil expr []) (by omega)
      (Nat.le_refl _) ?_
    rintro ahead rfl
    exact ⟨follows_of_joins?_eq_none rfl, by simp⟩
  have hsingle : Reads (singleExpr (printed.length + 1)) (expr.render ++ [.dot])
      (fun ahead => ahead = none) expr :=
    hexprs.bind (reads_expectEnd.bind Reads.pure fun _ hahead => hahead) fun _ _ => rfl
  have hparsed := @hsingle printed [] hprinted rfl
  rw [List.append_nil] at hparsed
  rw [ofTokens, parse, hparsed]
  rfl

/-- What tokens hold, its rendering in front of an end marker holds again. -/
theorem ofTokens_render {tokens printed : List Token} (h : ofTokens tokens = .ok expr)
    (hprinted : printed.map (·.lexeme) = expr.render ++ [.dot]) : ofTokens printed = .ok expr := by
  have hshaped : expr.Shaped fun _ => True := shaped_of_ofTokens (fun _ _ => trivial) h
  exact ofTokens_of_readable (readable_and_continues hshaped).1 hprinted

/-- A sign in parentheses is part of the number behind it, and needs none on the right of `-`. -/
theorem ofTokens_render_sample :
    let tokens := [Lexeme.var "X", .punct .minus, .punct .openParen, .punct .minus,
      .punct .openParen, .integer 2, .punct .closeParen, .punct .closeParen, .dot]
    let printed := [Lexeme.var "X", .punct .minus, .punct .minus, .integer 2, .dot]
    ofTokens (tokens.map (⟨·, 1⟩)) = .ok (.binaryOp .minus (.var "X") (.integer (-2))) ∧
    ofTokens (printed.map (⟨·, 2⟩)) = .ok (.binaryOp .minus (.var "X") (.integer (-2))) := by
  intro tokens printed
  have hread : ofTokens (tokens.map (⟨·, 1⟩)) =
      .ok (.binaryOp .minus (.var "X") (.integer (-2))) := by rfl
  exact ⟨hread, ofTokens_render hread rfl⟩

end Expr

end HeaderForms
