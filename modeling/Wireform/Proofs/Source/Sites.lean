import Wireform.Proofs.Outcome
import Wireform.Source.Module

/-
  Wireform source text: the sites where functions are written, and what their names tell of them. A
  name starts with the role of its function, and behind that stands the place in snake case: the
  operation, and then the message and the member that the function is for.
-/

namespace Wireform.Source

namespace Exchange

/-! ## Messages of an operation -/

def ofRequest (p : Plan) : Exchange := ⟨p, p.input, p.request, .request, true⟩

def ofResponse (p : Plan) : Exchange := ⟨p, p.output, p.response, .response, false⟩

def ofError (p : Plan) (e : Shape × List Binding) : Exchange := ⟨p, e.1, e.2, .response, false⟩

/-- The messages of an operation. -/
def all (p : Plan) : List Exchange := ofRequest p :: ofResponse p :: p.errors.map (ofError p)

end Exchange

/-! ## Sites -/

/-- The functions that an operation has once. -/
inductive OperationRole where
  | writePath
  | writeQuery
  | writeRequest
  | readRequest
  | writeResponse
  | readResponse
  | sensitivity

/-- The functions of an error. -/
inductive ErrorRole where
  | write
  | read

/-- The functions of a member. -/
inductive MemberRole where
  | readHeader
  | readPrefixHeader
  | writePayload
  | readPayload

/-- The functions of a member at a location. -/
def MemberRole.at : Location → List MemberRole
  | .header => [readHeader]
  | .prefixHeaders => [readPrefixHeader]
  | .payload => [writePayload, readPayload]
  | _ => []

/-- Where a function is written: for an operation, a message, an error or a member. -/
inductive Site where
  | operation (role : OperationRole) (p : Plan)
  | headers (x : Exchange)
  | error (role : ErrorRole) (x : Exchange)
  | member (role : MemberRole) (x : Exchange) (b : Binding)

namespace Site

/-- The function of a site. -/
def write (w : Writer) : Site → Except GenerateError Definition
  | operation .writePath p => Source.writePath w p
  | operation .writeQuery p => Source.writeQuery w p
  | operation .writeRequest p => Source.writeRequest w (.ofRequest p)
  | operation .readRequest p => Source.readRequest w (.ofRequest p)
  | operation .writeResponse p => Source.writeResponse w (.ofResponse p)
  | operation .readResponse p => Source.readResponse w (.ofResponse p)
  | operation .sensitivity p => .ok (Source.sensitivity p)
  | headers x => addHeaders w x
  | error .write x => writeError w x
  | error .read x => readError w x
  | member .readHeader x b => Source.readHeader w x b
  | member .readPrefixHeader x b => Source.readPrefixHeader w x b
  | member .writePayload x b => Source.writePayload w x b
  | member .readPayload x b => Source.readPayload w x b

/-- The sites of the members of a message. -/
def ofMembers (x : Exchange) : List Site :=
  x.bindings.flatMap fun b => (MemberRole.at b.location).map (member · x b)

/-- The sites of a request. -/
def ofRequest (p : Plan) : List Site :=
  [headers (.ofRequest p), operation .writePath p, operation .writeQuery p] ++
    ofMembers (.ofRequest p) ++ [operation .writeRequest p, operation .readRequest p]

/-- The sites of a response or an error, where the last two are given. -/
def ofAnswer (x : Exchange) (write read : Site) : List Site :=
  headers x :: ofMembers x ++ [write, read]

/-- The sites behind those of the request. -/
def ofAnswers (p : Plan) : List Site :=
  ofAnswer (.ofResponse p) (operation .writeResponse p) (operation .readResponse p) ++
    (p.errors.flatMap fun e => ofAnswer (.ofError p e) (error .write (.ofError p e))
      (error .read (.ofError p e))) ++ [operation .sensitivity p]

/-- The sites of an operation in order. -/
def ofPlan (p : Plan) : List Site := ofRequest p ++ ofAnswers p

section

variable {w : Writer} {p : Plan} {x : Exchange} {b : Binding}

theorem memberFunctions_eq :
    memberFunctions w x b = ((MemberRole.at b.location).map (member · x b)).mapM (write w) := by
  unfold memberFunctions MemberRole.at
  cases b.location <;> simp [write] <;> rfl

theorem containerFunctions_eq : containerFunctions w x = (ofMembers x).mapM (write w) := by
  unfold containerFunctions ofMembers
  rw [Outcome.mapM_flatMap]
  exact congrArg _ (congrArg (List.mapM · x.bindings) (funext fun _ => memberFunctions_eq))

theorem requestFunctions_eq :
    requestFunctions w (.ofRequest p) = (ofRequest p).mapM (write w) := by
  unfold requestFunctions ofRequest
  rw [containerFunctions_eq]
  simp [write, List.mapM_append, Exchange.ofRequest]

theorem responseFunctions_eq {writes reads : Writer → Exchange → Except GenerateError Definition}
    {s t : Site} (hs : s.write w = writes w x) (ht : t.write w = reads w x) :
    responseFunctions w x writes reads = (ofAnswer x s t).mapM (write w) := by
  have hheaders : (headers x).write w = addHeaders w x := rfl
  unfold responseFunctions ofAnswer
  rw [containerFunctions_eq]
  simp [List.mapM_append, hheaders, hs, ht]

/-- The functions of an operation are those of its sites. -/
theorem operationFunctions_eq : operationFunctions w p = (ofPlan p).mapM (write w) := by
  have hfunctions : operationFunctions w p = do
      let request ← requestFunctions w (.ofRequest p)
      let response ← responseFunctions w (.ofResponse p) writeResponse readResponse
      let errors ← p.errors.mapM fun e => responseFunctions w (.ofError p e) writeError readError
      return request ++ response ++ errors.flatten ++ [Source.sensitivity p] := rfl
  have hresponse : responseFunctions w (.ofResponse p) writeResponse readResponse =
      (ofAnswer (.ofResponse p) (operation .writeResponse p)
        (operation .readResponse p)).mapM (write w) := responseFunctions_eq rfl rfl
  have herror : ∀ e, responseFunctions w (.ofError p e) writeError readError =
      (ofAnswer (.ofError p e) (error .write (.ofError p e))
        (error .read (.ofError p e))).mapM (write w) := fun e => responseFunctions_eq rfl rfl
  have hlast : [operation .sensitivity p].mapM (write w) = .ok [Source.sensitivity p] := rfl
  rw [hfunctions, ofPlan, ofAnswers, List.mapM_append, List.mapM_append, List.mapM_append,
    Outcome.mapM_flatMap, hlast]
  simp only [← herror]
  rw [← requestFunctions_eq, ← hresponse]
  cases requestFunctions w (.ofRequest p) with
  | error e => rfl
  | ok request =>
    cases responseFunctions w (.ofResponse p) writeResponse readResponse with
    | error e => rfl
    | ok response =>
      cases p.errors.mapM fun e => responseFunctions w (.ofError p e) writeError readError with
      | error e => rfl
      | ok errors => exact congrArg Except.ok (by simp only [List.append_assoc])

end

/-! ## The sites of an operation -/

/-- What makes a site one of an operation. -/
def Belongs (p : Plan) : Site → Prop
  | operation _ q => q = p
  | headers x => x ∈ Exchange.all p
  | error _ x => ∃ e ∈ p.errors, x = .ofError p e
  | member r x b => x ∈ Exchange.all p ∧ b ∈ x.bindings ∧ r ∈ MemberRole.at b.location

theorem mem_ofMembers {x : Exchange} {s : Site} :
    s ∈ ofMembers x ↔ ∃ b ∈ x.bindings, ∃ r ∈ MemberRole.at b.location, member r x b = s := by
  simp [ofMembers]

theorem mem_ofPlan {p : Plan} {s : Site} : s ∈ ofPlan p ↔ s.Belongs p := by
  cases s with
  | operation r q =>
    cases r <;> simp [ofPlan, ofRequest, ofAnswers, ofAnswer, mem_ofMembers, Belongs]
  | headers x =>
    simp [ofPlan, ofRequest, ofAnswers, ofAnswer, mem_ofMembers, Belongs, Exchange.all, eq_comm]
  | error r x =>
    cases r <;> simp [ofPlan, ofRequest, ofAnswers, ofAnswer, mem_ofMembers, Belongs]
  | member r x b =>
    have hsites : member r x b ∈ ofPlan p ↔ ∃ y ∈ Exchange.all p, member r x b ∈ ofMembers y := by
      simp [ofPlan, ofRequest, ofAnswers, ofAnswer, Exchange.all]
    rw [hsites]
    simp only [mem_ofMembers, member.injEq]
    constructor
    · rintro ⟨y, hy, c, hc, q, hq, rfl, rfl, rfl⟩
      exact ⟨hy, hc, hq⟩
    · rintro ⟨hx, hb, hr⟩
      exact ⟨x, hx, b, hb, r, hr, rfl, rfl, rfl⟩

theorem strict_of_mem_ofRequest {p : Plan} {r : MemberRole} {x : Exchange} {b : Binding}
    (h : member r x b ∈ ofRequest p) : x.strict = true := by
  have hmember : member r x b ∈ ofMembers (.ofRequest p) := by simpa [ofRequest] using h
  obtain ⟨c, -, q, -, hsite⟩ := mem_ofMembers.mp hmember
  cases hsite
  rfl

theorem lenient_of_mem_ofAnswers {p : Plan} {r : MemberRole} {x : Exchange} {b : Binding}
    (h : member r x b ∈ ofAnswers p) : x.strict = false := by
  have hmember : member r x b ∈ ofMembers (.ofResponse p) ∨
      ∃ e ∈ p.errors, member r x b ∈ ofMembers (.ofError p e) := by
    simpa [ofAnswers, ofAnswer] using h
  rcases hmember with hmember | ⟨e, -, hmember⟩ <;>
  · obtain ⟨c, -, q, -, hsite⟩ := mem_ofMembers.mp hmember
    cases hsite
    rfl

end Site

/-! ## Names -/

/-- What a function is for: an operation, one of its messages, or a member of the message. -/
structure Place where
  plan : Plan
  container : Option Shape
  member : Option Member

/-- A place as names have it. -/
def Place.spelled (y : Place) : String :=
  "_".intercalate (y.plan.name :: (y.container.map fun s => Name.snake s.name).toList ++
    (y.member.map fun m => Name.snake m.name).toList)

def OperationRole.text : OperationRole → String
  | writePath => "ser_path"
  | writeQuery => "ser_query"
  | writeRequest => "ser_request"
  | readRequest => "deser_request"
  | writeResponse => "ser_response"
  | readResponse => "deser_response"
  | sensitivity => "sensitivity"

def ErrorRole.text : ErrorRole → String
  | write => "ser_error"
  | read => "deser_error"

def MemberRole.text : MemberRole → String
  | readHeader => "deser_header"
  | readPrefixHeader => "deser_prefix_header"
  | writePayload => "ser_payload"
  | readPayload => "deser_payload"

theorem OperationRole.text_inj {r r' : OperationRole} (h : r.text = r'.text) : r = r' := by
  cases r <;> cases r' <;> first | rfl | exact absurd h (by decide)

theorem ErrorRole.text_inj {r r' : ErrorRole} (h : r.text = r'.text) : r = r' := by
  cases r <;> cases r' <;> first | rfl | exact absurd h (by decide)

theorem ErrorRole.text_ne (r : ErrorRole) : r.text ≠ "add_headers" := by
  cases r <;> decide

theorem MemberRole.text_inj {r r' : MemberRole} (h : r.text = r'.text) : r = r' := by
  cases r <;> cases r' <;> first | rfl | exact absurd h (by decide)

namespace Site

/-- What a function does; its name starts with it. -/
def role : Site → String
  | operation r _ => r.text
  | headers _ => "add_headers"
  | error r _ => r.text
  | member r _ _ => r.text

def place : Site → Place
  | operation _ p => ⟨p, none, none⟩
  | headers x => ⟨x.plan, x.container, none⟩
  | error _ x => ⟨x.plan, x.container, none⟩
  | member _ x b => ⟨x.plan, x.container, b.member⟩

/-- All roles. -/
def roles : List String := ["ser_path", "ser_query", "ser_request", "deser_request",
  "ser_response", "deser_response", "sensitivity", "add_headers", "ser_error", "deser_error",
  "deser_header", "deser_prefix_header", "ser_payload", "deser_payload"]

theorem role_mem (s : Site) : s.role ∈ roles := by
  have hoperation : ∀ r : OperationRole, r.text ∈ roles := by rintro (_ | _) <;> decide
  have herror : ∀ r : ErrorRole, r.text ∈ roles := by rintro (_ | _) <;> decide
  have hmember : ∀ r : MemberRole, r.text ∈ roles := by rintro (_ | _) <;> decide
  cases s with
  | operation r p => exact hoperation r
  | headers x => exact (by decide : "add_headers" ∈ roles)
  | error r x => exact herror r
  | member r x b => exact hmember r

/-- No role starts another one. -/
theorem roles_apart : ∀ r ∈ roles, ∀ r' ∈ roles,
    (r.toList ++ ['_']) <+: (r'.toList ++ ['_']) → r = r' := by
  decide +kernel

/-- A name tells the role, and the place as far as it is spelled. -/
theorem role_of_name {r r' a a' : String} (hr : r ∈ roles) (hr' : r' ∈ roles)
    (h : r ++ "_" ++ a = r' ++ "_" ++ a') : r = r' ∧ a = a' := by
  have hlist := congrArg String.toList h
  have hbar : "_".toList = ['_'] := rfl
  simp only [String.toList_append, hbar] at hlist
  have hstart : (r.toList ++ ['_']) <+: (r'.toList ++ ['_']) ++ a'.toList := ⟨_, hlist⟩
  have hsame : r = r' := by
    rcases List.prefix_or_prefix_of_prefix hstart (List.prefix_append _ _) with h | h
    · exact roles_apart r hr r' hr' h
    · exact (roles_apart r' hr' r hr h).symm
  subst hsame
  exact ⟨rfl, String.toList_inj.mp (List.append_cancel_left hlist)⟩

-- different places can be spelled alike
example : Name.snake "GetItem" ++ "_" ++ Name.snake "In" =
    Name.snake "Get" ++ "_" ++ Name.snake "ItemIn" := by decide

theorem functionName_eq (role : String) (x : Exchange) (m : Option Member) :
    x.functionName role m = role ++ "_" ++ (Place.mk x.plan x.container m).spelled := by
  unfold Exchange.functionName functionName Place.spelled
  exact String.intercalate_cons_cons

theorem spelled_operation {p : Plan} : (Place.mk p none none).spelled = p.name :=
  String.intercalate_singleton

/-- The name of a function has its role and its place. -/
theorem name_of_write {w : Writer} (s : Site) :
    Outcome.Gives (fun d => d.name = s.role ++ "_" ++ s.place.spelled) (s.write w) := by
  cases s with
  | operation r p =>
    unfold place
    rw [spelled_operation]
    cases r with
    | writePath => exact .bind fun _ _ => Outcome.gives_ok rfl
    | writeQuery => exact .bind fun _ _ => .bind fun _ _ => Outcome.gives_ok rfl
    | writeRequest => exact .bind fun _ _ => .bind fun _ _ => Outcome.gives_ok rfl
    | readRequest => exact .bind fun _ _ => Outcome.gives_ok rfl
    | writeResponse => exact .bind fun _ _ => Outcome.gives_ok rfl
    | readResponse => exact .bind fun _ _ => Outcome.gives_ok rfl
    | sensitivity => exact Outcome.gives_ok rfl
  | headers x => exact .bind fun _ _ => Outcome.gives_ok (functionName_eq "add_headers" x none)
  | error r x =>
    have hname := functionName_eq r.text x none
    cases r with
    | write => exact .bind fun _ _ => .bind fun _ _ => Outcome.gives_ok hname
    | read => exact .bind fun _ _ => Outcome.gives_ok hname
  | member r x b =>
    have hname := functionName_eq r.text x b.member
    cases r with
    | readHeader => exact .bind fun _ _ => .bind fun _ _ => Outcome.gives_ok hname
    | readPrefixHeader => exact .bind fun _ _ => .bind fun _ _ => Outcome.gives_ok hname
    | writePayload => exact .bind fun _ _ => .bind fun _ _ => Outcome.gives_ok hname
    | readPayload =>
      refine .bind fun t _ => ?_
      dsimp only
      split
      · exact Outcome.gives_ok hname
      · split
        · exact Outcome.gives_ok hname
        · exact .bind fun _ _ => Outcome.gives_ok hname

/-! ## Sites of one name -/

/-- Sites of one role at one place. -/
inductive Alike : Site → Site → Prop where
  | operation (r : OperationRole) (p : Plan) : Alike (operation r p) (operation r p)
  | headers {x y : Exchange} (hplan : x.plan = y.plan) (hcontainer : x.container = y.container) :
      Alike (headers x) (headers y)
  | error {x y : Exchange} (r : ErrorRole) (hplan : x.plan = y.plan)
      (hcontainer : x.container = y.container) : Alike (error r x) (error r y)
  | member {x y : Exchange} {b c : Binding} (r : MemberRole) (hplan : x.plan = y.plan)
      (hcontainer : x.container = y.container) (hmember : b.member = c.member) :
      Alike (member r x b) (member r y c)

theorem alike_of_role {s t : Site} (hrole : s.role = t.role) (hplace : s.place = t.place) :
    s.Alike t := by
  cases s with
  | operation r p =>
    cases t with
    | operation r' p' =>
      obtain rfl : p = p' := congrArg Place.plan hplace
      obtain rfl := OperationRole.text_inj hrole
      exact .operation r p
    | headers y | error _ y | member _ y _ => cases congrArg Place.container hplace
  | headers x =>
    have hplan : x.plan = t.place.plan := congrArg Place.plan hplace
    have hcontainer : some x.container = t.place.container := congrArg Place.container hplace
    cases t with
    | operation _ _ => cases hcontainer
    | headers y => exact .headers hplan (Option.some.inj hcontainer)
    | error r y => exact absurd hrole.symm r.text_ne
    | member _ _ _ => cases congrArg Place.member hplace
  | error r x =>
    have hplan : x.plan = t.place.plan := congrArg Place.plan hplace
    have hcontainer : some x.container = t.place.container := congrArg Place.container hplace
    cases t with
    | operation _ _ => cases hcontainer
    | headers y => exact absurd hrole r.text_ne
    | error r' y =>
      obtain rfl := ErrorRole.text_inj hrole
      exact .error r hplan (Option.some.inj hcontainer)
    | member _ _ _ => cases congrArg Place.member hplace
  | member r x b =>
    have hplan : x.plan = t.place.plan := congrArg Place.plan hplace
    have hcontainer : some x.container = t.place.container := congrArg Place.container hplace
    have hmember : some b.member = t.place.member := congrArg Place.member hplace
    cases t with
    | operation _ _ | headers _ | error _ _ => cases hmember
    | member r' y c =>
      obtain rfl := MemberRole.text_inj hrole
      exact .member r hplan (Option.some.inj hcontainer) (Option.some.inj hmember)

end Site

end Wireform.Source
