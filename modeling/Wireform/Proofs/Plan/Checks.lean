import Wireform.Plan
import Wireform.Proofs.Model.Loaded

/-
  Wireform plans: planning as a sequence of checks. An operation has no plan when one of its checks
  fails, and the first one that fails gives the error. An index of HTTP rules changes no outcome.
-/

namespace Wireform.Plan

/-! ## One operation -/

/-- A message of an operation that is classified. -/
structure Message where
  direction : Direction
  uri : Option Pattern
  shape : Shape

/-- What is checked for an operation: that the members of a message can be bound, that its bindings
have a text form, that there is a checksum policy, and that the walks from a message end well. -/
inductive Check where
  | bound (x : Message)
  | formatted (x : Message)
  | checksum
  | walked (root : Shape)

namespace Message

def classify (model : Model) (x : Message) : Except AnalysisError (List Binding) :=
  Binding.classify model x.direction x.uri x.shape

def ofError (error : Shape) : Message := ⟨.response, none, error⟩

/-- The messages of an operation. -/
def all (http : HttpRule) (input output : Shape) (errors : List Shape) : List Message :=
  ⟨.request, some http.uri, input⟩ :: ⟨.response, none, output⟩ :: errors.map ofError

end Message

namespace Check

/-- A message that cannot be bound fails its first check only. -/
def run (model : Model) (p : Protocol) (op : Shape) : Check → Except AnalysisError Unit
  | bound x => (x.classify model).map fun _ => ()
  | formatted x =>
    match x.classify model with
    | .ok bs => checkFormats model p bs
    | .error _ => .ok ()
  | checksum => (ChecksumPolicy.ofShape model p op).map fun _ => ()
  | walked root => (Sensitivity.memberIds model root).map fun _ => ()

/-- The checks of an operation in their order. -/
def all (http : HttpRule) (input output : Shape) (errors : List Shape) : List Check :=
  (Message.all http input output errors).map bound ++
    (Message.all http input output errors).map formatted ++
    [checksum, walked input, walked output]

end Check

section

variable {model : Model} {p : Protocol} {op input output : Shape} {errors : List Shape}
  {http : HttpRule}

/-- The bindings of errors, each with its error. -/
theorem mapM_ofError (es : List Shape) :
    es.mapM (fun e => (Binding.ofError model e).map (e, ·)) =
      ((es.map Message.ofError).mapM (Message.classify model)).map es.zip := by
  induction es with
  | nil => rfl
  | cons e es ih =>
    have hclassify : Message.classify model (.ofError e) = Binding.ofError model e := rfl
    rw [List.map_cons, List.mapM_cons, List.mapM_cons, ih, hclassify]
    cases Binding.ofError model e with
    | error e => rfl
    | ok bs =>
      cases (es.map Message.ofError).mapM (Message.classify model) with
      | error e => rfl
      | ok bss => rfl

/-- An operation is planned by classifying its messages, then checking their formats, and then the
rest. -/
theorem ofRule_eq (hinput : model.lookup (Model.orUnit op.input) = .ok input)
    (houtput : model.lookup (Model.orUnit op.output) = .ok output)
    (herrors : op.errors.mapM model.lookup = .ok errors) :
    ofRule model p op http = do
      let bss ← (Message.all http input output errors).mapM (Message.classify model)
      bss.forM (checkFormats model p)
      let checksum ← ChecksumPolicy.ofShape model p op
      let coverage ← Coverage.ofBindings model input (bss.getD 0 []) output (bss.getD 1 [])
      return ⟨op, http, input, output, bss.getD 0 [], bss.getD 1 [], errors.zip (bss.drop 2),
        checksum, coverage⟩ := by
  have hfound : ofRule model p op http = do
      let request ← Message.classify model ⟨.request, some http.uri, input⟩
      let response ← Message.classify model ⟨.response, none, output⟩
      let es ← errors.mapM fun e => (Binding.ofError model e).map (e, ·)
      (request :: response :: es.map (·.2)).forM (checkFormats model p)
      let checksum ← ChecksumPolicy.ofShape model p op
      let coverage ← Coverage.ofBindings model input request output response
      return ⟨op, http, input, output, request, response, es, checksum, coverage⟩ := by
    unfold ofRule Binding.ofInput Binding.ofOutput
    rw [hinput, houtput, herrors]
    rfl
  rw [hfound, Message.all, List.mapM_cons, List.mapM_cons]
  cases Message.classify model ⟨.request, some http.uri, input⟩ with
  | error e => rfl
  | ok request =>
    cases Message.classify model ⟨.response, none, output⟩ with
    | error e => rfl
    | ok response =>
      rw [mapM_ofError]
      cases hbss : (errors.map Message.ofError).mapM (Message.classify model) with
      | error e => rfl
      | ok bss =>
        have hlength : errors.length = bss.length := by
          rw [← (Outcome.mapM_eq_ok.mp hbss).length_eq, List.length_map]
        have hsnd : (errors.zip bss).map (·.2) = bss := List.map_snd_zip (Nat.le_of_eq hlength.symm)
        dsimp only [Except.map, bind, Except.bind]
        rw [hsnd]
        rfl

theorem firstFault_bound {xs : List Message} {e : AnalysisError} :
    Outcome.FirstFault (Check.run model p op) (fun c => c.run model p op = .error e)
        (xs.map .bound) ↔ xs.mapM (Message.classify model) = .error e := by
  rw [Outcome.firstFault_map, Outcome.mapM_eq_error]
  exact Outcome.firstFault_congr (fun _ => Outcome.exists_map_eq_ok) fun _ => Outcome.map_eq_error

/-- Where messages have bindings, their formats are those of the bindings. -/
theorem firstFault_formatted {xs : List Message} {bss : List (List Binding)}
    (hbss : xs.mapM (Message.classify model) = .ok bss) {e : AnalysisError} :
    Outcome.FirstFault (Check.run model p op) (fun c => c.run model p op = .error e)
        (xs.map .formatted) ↔ bss.forM (checkFormats model p) = .error e := by
  have hrun : ∀ (x : Message) (bs : List Binding), x.classify model = .ok bs →
      (Check.formatted x).run model p op = checkFormats model p bs := by
    intro x bs hx
    simp only [Check.run, hx]
  rw [Outcome.firstFault_map, Outcome.forM_eq_error]
  refine Outcome.firstFault_of_forall₂ (Outcome.mapM_eq_ok.mp hbss) ?_ ?_
  · exact fun x bs hx => hrun x bs hx ▸ Iff.rfl
  · exact fun x bs hx => hrun x bs hx ▸ Iff.rfl

/-- The sensitive parts are found by walking from the input, and then from the output. -/
theorem ofBindings_eq_error {request response : List Binding} {e : AnalysisError} :
    Coverage.ofBindings model input request output response = .error e ↔
      Outcome.FirstFault (Check.run model p op) (fun c => c.run model p op = .error e)
        [.walked input, .walked output] := by
  have hok : ∀ (root : Shape) (bs : List Binding),
      (∃ kept, Coverage.bindingsOf model root bs = .ok kept) ↔
        ∃ u, (Check.walked root).run model p op = .ok u := by
    intro root bs
    show (∃ kept, (Sensitivity.memberIds model root).map _ = .ok kept) ↔
      ∃ u, (Sensitivity.memberIds model root).map _ = .ok u
    rw [Outcome.exists_map_eq_ok, Outcome.exists_map_eq_ok]
  have herror : ∀ (root : Shape) (bs : List Binding),
      Coverage.bindingsOf model root bs = .error e ↔
        (Check.walked root).run model p op = .error e := by
    intro root bs
    show (Sensitivity.memberIds model root).map _ = .error e ↔
      (Sensitivity.memberIds model root).map _ = .error e
    rw [Outcome.map_eq_error, Outcome.map_eq_error]
  rw [Outcome.firstFault_cons, Outcome.firstFault_cons, ← herror input request,
    ← herror output response, ← hok input request, iff_false_intro Outcome.not_firstFault_nil,
    and_false, or_false, ← exists_and_right]
  refine Outcome.bind_eq_error.trans (or_congr_right (exists_congr fun _ => ?_))
  exact and_congr_right fun _ => Outcome.map_eq_error

/-- The first check of an operation that fails gives the error. -/
theorem ofRule_eq_error (hinput : model.lookup (Model.orUnit op.input) = .ok input)
    (houtput : model.lookup (Model.orUnit op.output) = .ok output)
    (herrors : op.errors.mapM model.lookup = .ok errors) {e : AnalysisError} :
    ofRule model p op http = .error e ↔
      Outcome.FirstFault (Check.run model p op) (fun c => c.run model p op = .error e)
        (Check.all http input output errors) := by
  rw [ofRule_eq hinput houtput herrors]
  unfold Check.all
  rw [List.append_assoc, Outcome.firstFault_append, Outcome.firstFault_append, firstFault_bound,
    Outcome.exists_mapM_iff fun _ => firstFault_bound, Outcome.bind_eq_error, ← exists_and_right]
  refine or_congr_right (exists_congr fun bss => and_congr_right fun hbss => ?_)
  rw [firstFault_formatted hbss, Outcome.exists_mapM_iff fun _ => firstFault_formatted hbss,
    Outcome.bind_eq_error, exists_and_right, Outcome.firstFault_cons]
  refine or_congr_right (and_congr_right fun _ => ?_)
  have hchecksum : ∀ x : Except AnalysisError (Option ChecksumPolicy),
      (∃ u, (x.map fun _ => ()) = .ok u) ↔ ∃ c, x = .ok c := fun _ => Outcome.exists_map_eq_ok
  rw [Outcome.bind_eq_error, Check.run, Outcome.map_eq_error, hchecksum, ← ofBindings_eq_error,
    ← exists_and_right]
  exact or_congr_right (exists_congr fun _ => and_congr_right fun _ => Outcome.map_eq_error)

end

/-! ## What a plan holds -/

/-- The messages of a planned operation with their bindings. -/
def exchanges (plan : Plan) : List (Message × List Binding) :=
  (⟨.request, some plan.http.uri, plan.input⟩, plan.request) ::
    (⟨.response, none, plan.output⟩, plan.response) ::
    plan.errors.map fun x => (.ofError x.1, x.2)

/-- What planning has checked of an operation. -/
structure Checked (model : Model) (p : Protocol) (plan : Plan) : Prop where
  shape : ∀ x ∈ plan.exchanges, x.1.shape ∈ model.shapes
  classified : ∀ x ∈ plan.exchanges, x.1.classify model = .ok x.2
  formatted : ∀ x ∈ plan.exchanges, checkFormats model p x.2 = .ok ()
  checksum : ChecksumPolicy.ofShape model p plan.operation = .ok plan.checksum

theorem checked_of_ofRule {model : Model} {p : Protocol} {op : Shape} {http : HttpRule}
    {plan : Plan} (hsound : model.Sound) (hop : op ∈ model.shapes)
    (h : ofRule model p op http = .ok plan) : Checked model p plan := by
  obtain ⟨input, hi, hinput⟩ := hsound.exists_input hop
  obtain ⟨output, ho, houtput⟩ := hsound.exists_output hop
  obtain ⟨errors, herrors, he⟩ := hsound.exists_errors hop
  rw [ofRule_eq hinput houtput herrors] at h
  obtain ⟨bss, hbss, h⟩ := Outcome.bind_eq_ok.mp h
  obtain ⟨⟨⟩, hformats, h⟩ := Outcome.bind_eq_ok.mp h
  obtain ⟨checksum, hchecksum, h⟩ := Outcome.bind_eq_ok.mp h
  obtain ⟨coverage, -, h⟩ := Outcome.bind_eq_ok.mp h
  cases h
  have hall := Outcome.mapM_eq_ok.mp hbss
  obtain ⟨request, tail, -, htail, rfl⟩ := List.forall₂_cons_left_iff.mp hall
  obtain ⟨response, rest, -, -, rfl⟩ := List.forall₂_cons_left_iff.mp htail
  have hzip : ∀ x ∈ exchanges ⟨op, http, input, output, request, response, errors.zip rest,
      checksum, coverage⟩,
      x ∈ (Message.all http input output errors).zip (request :: response :: rest) := by
    intro x hx
    rw [Message.all, List.zip_cons_cons, List.zip_cons_cons, List.zip_map_left]
    exact hx
  refine ⟨fun x hx => ?_, fun x hx => (List.forall₂_iff_zip.mp hall).2 (hzip x hx), fun x hx =>
    Outcome.forM_eq_ok.mp hformats _ (List.of_mem_zip (hzip x hx)).2, hchecksum⟩
  have hshapes : ∀ m ∈ Message.all http input output errors, m.shape ∈ model.shapes := by
    refine List.forall_mem_cons.mpr ⟨hi, List.forall_mem_cons.mpr ⟨ho, ?_⟩⟩
    exact List.forall_mem_map.mpr he
  exact hshapes _ (List.of_mem_zip (hzip x hx)).1

/-! ## All operations -/

/-- An index holds only rules that operations of the model have. -/
def Holds (model : Model) (ix : HttpIndex) : Prop :=
  ∀ op ∈ model.shapes, ∀ r, Entries.get? op.id ix.rules = some r → HttpRule.ofShape op = .ok r

/-- Lets the errors of bindings pass. -/
def spare {α : Type} : Except AnalysisError α → Except AnalysisError (Except BindingError α)
  | .ok a => .ok (.ok a)
  | .error (.binding e) => .ok (.error e)
  | .error e => .error e

/-- What comes of one operation: its plan, if it has one, or the error of a binding. Another error
ends the work. -/
def settle (model : Model) (p : Protocol) (op : Shape) :
    Except AnalysisError (Except BindingError (Option Plan)) :=
  spare (ofShape model p .empty op).1

/-- The plans and errors apart. -/
def sorted : List (Except BindingError (Option Plan)) → List Plan × List BindingError
  | [] => ([], [])
  | .ok plan :: rs => (plan.toList ++ (sorted rs).1, (sorted rs).2)
  | .error e :: rs => ((sorted rs).1, e :: (sorted rs).2)

section

variable {model : Model} {p : Protocol} {ix : HttpIndex} {op : Shape}

theorem holds_empty : Holds model .empty := fun _ _ _ h => by cases h

theorem rule_of_holds (hix : Holds model ix) (hop : op ∈ model.shapes) :
    (ix.rule op).1 = HttpRule.ofShape op := by
  unfold HttpIndex.rule
  cases hget : Entries.get? op.id ix.rules with
  | some r => exact (hix op hop r hget).symm
  | none =>
    cases hrule : HttpRule.ofShape op with
    | ok r => simp
    | error e => simp

theorem holds_rule (hids : model.ids.Nodup) (hix : Holds model ix) (hop : op ∈ model.shapes) :
    Holds model (ix.rule op).2 := by
  unfold HttpIndex.rule
  cases hget : Entries.get? op.id ix.rules with
  | some r => exact hix
  | none =>
    cases hrule : HttpRule.ofShape op with
    | error e => simpa [hrule] using hix
    | ok r =>
      intro op' hop' r' hget'
      simp only [Entries.get?] at hget'
      split at hget'
      · next hid =>
        cases hget'
        rw [← List.inj_on_of_nodup_map hids hop hop' hid, hrule]
      · exact hix op' hop' r' hget'

/-- What an index remembers changes no outcome. -/
theorem ofShape_of_holds (hix : Holds model ix) (hop : op ∈ model.shapes) :
    (ofShape model p ix op).1 = (ofShape model p .empty op).1 := by
  have hrule : (ix.rule op).1 = (HttpIndex.empty.rule op).1 := by
    rw [rule_of_holds hix hop, rule_of_holds holds_empty hop]
  unfold ofShape
  dsimp only
  rw [hrule]

/-- The operations are planned one by one. -/
theorem gather_eq (hids : model.ids.Nodup) {ops : List Shape}
    (hops : ∀ op ∈ ops, op ∈ model.shapes) (hix : Holds model ix) :
    gather model p ix ops = (ops.mapM (settle model p)).map sorted := by
  induction ops generalizing ix with
  | nil => rfl
  | cons op ops ih =>
    have hop := hops op List.mem_cons_self
    have hrest := ih (fun op' h => hops op' (List.mem_cons_of_mem op h)) (holds_rule hids hix hop)
    have hplan := ofShape_of_holds (p := p) hix hop
    rw [gather, List.mapM_cons]
    dsimp only
    have hnext : (ofShape model p ix op).2 = (ix.rule op).2 := rfl
    rw [hplan, hnext, hrest]
    generalize ops.mapM (settle model p) = rest
    unfold settle spare
    cases (ofShape model p .empty op).1 with
    | ok plan => cases rest <;> rfl
    | error e => cases e <;> cases rest <;> rfl

theorem rule_error {e : AnalysisError} (h : HttpRule.ofShape op = .error e) :
    ∃ b, e = .binding b := by
  unfold HttpRule.ofShape at h
  split at h
  · cases h
  · split at h
    · cases h
      exact ⟨_, rfl⟩
    · split at h
      · cases h
        exact ⟨_, rfl⟩
      · cases h

theorem ofShape_empty : (ofShape model p .empty op).1 =
    match HttpRule.ofShape op with
    | .error e => .error e
    | .ok none => .ok none
    | .ok (some http) => (ofRule model p op http).map some := by
  unfold ofShape HttpIndex.rule HttpIndex.empty
  dsimp only [Entries.get?]
  cases HttpRule.ofShape op <;> rfl

theorem spare_eq_error {α : Type} {x : Except AnalysisError α} {e : AnalysisError} :
    spare x = .error e ↔ x = .error e ∧ ∀ b, e ≠ .binding b := by
  cases x with
  | ok a => simp [spare]
  | error e' => cases e' <;> simp +contextual [spare, eq_comm]

theorem spare_eq_ok {α : Type} {x : Except AnalysisError α} {r : Except BindingError α} :
    spare x = .ok r ↔ x = r.mapError .binding := by
  cases x with
  | ok a => cases r <;> simp [spare, Except.mapError, eq_comm]
  | error e => cases e <;> cases r <;> simp [spare, Except.mapError, eq_comm]

/-- An operation ends the work with an error of its checks that is not the error of a binding. -/
theorem settle_eq_error {e : AnalysisError} : settle model p op = .error e ↔
    (∃ http, HttpRule.ofShape op = .ok (some http) ∧ ofRule model p op http = .error e) ∧
      ∀ b, e ≠ .binding b := by
  unfold settle
  rw [spare_eq_error, ofShape_empty]
  refine and_congr_left fun hbinding => ?_
  cases hrule : HttpRule.ofShape op with
  | error e' =>
    obtain ⟨b, rfl⟩ := rule_error hrule
    simpa using (hbinding b).symm
  | ok http? =>
    cases http? with
    | none => simp
    | some http => simp [Outcome.map_eq_error]

theorem settle_eq_plan {plan : Plan} : settle model p op = .ok (.ok (some plan)) ↔
    ∃ http, HttpRule.ofShape op = .ok (some http) ∧ ofRule model p op http = .ok plan := by
  unfold settle
  rw [spare_eq_ok, ofShape_empty, Except.mapError]
  cases HttpRule.ofShape op with
  | error e' => simp
  | ok http? =>
    cases http? with
    | none => simp
    | some http => simp [Outcome.map_eq_ok]

theorem mem_sorted {rs : List (Except BindingError (Option Plan))} {plan : Plan} :
    plan ∈ (sorted rs).1 ↔ .ok (some plan) ∈ rs := by
  induction rs with
  | nil => exact iff_of_false List.not_mem_nil List.not_mem_nil
  | cons r rs ih =>
    cases r with
    | error e => simp [sorted, ih]
    | ok plan? => cases plan? <;> simp [sorted, ih]

theorem ofModel_eq (hids : model.ids.Nodup) {service : Option Shape} {ops : List Shape}
    (hops : model.operations service = .ok ops) (hmem : ∀ op ∈ ops, op ∈ model.shapes) :
    ofModel model p service =
      match ops.mapM (settle model p) with
      | .error e => .error (.analysis e)
      | .ok rs => if (sorted rs).2.isEmpty then .ok (sorted rs).1
        else .error (.bindings (sorted rs).2) := by
  have hgather := gather_eq (p := p) hids hmem holds_empty
  unfold ofModel
  rw [hops]
  dsimp only [Except.mapError, bind, Except.bind]
  rw [hgather]
  cases ops.mapM (settle model p) with
  | error e => rfl
  | ok rs =>
    dsimp only [Except.map]
    cases (sorted rs).2 <;> rfl

/-- The first operation that ends the work gives its error. -/
theorem ofModel_eq_analysis (hsound : model.Sound) {service : Option Shape}
    (hservice : ∀ s, service = some s → s ∈ model.shapes) {e : AnalysisError} :
    ofModel model p service = .error (.analysis e) ↔
      ∃ ops, model.operations service = .ok ops ∧
        Outcome.FirstFault (settle model p) (fun op => settle model p op = .error e) ops := by
  obtain ⟨ops, hops, hmem⟩ := hsound.exists_operations hservice
  simp only [hops, Except.ok.injEq, exists_eq_left']
  rw [ofModel_eq hsound.nodup hops hmem, ← Outcome.mapM_eq_error]
  cases ops.mapM (settle model p) with
  | error e' => simp
  | ok rs =>
    dsimp only
    split <;> simp

/-- Every plan of a sound model is that of one of its operations. -/
theorem exists_rule_of_mem_ofModel (hsound : model.Sound) {service : Option Shape}
    (hservice : ∀ s, service = some s → s ∈ model.shapes) {plans : List Plan}
    (h : ofModel model p service = .ok plans) {plan : Plan} (hplan : plan ∈ plans) :
    ∃ op ∈ model.shapes, ∃ http, ofRule model p op http = .ok plan := by
  obtain ⟨ops, hops, hmem⟩ := hsound.exists_operations hservice
  rw [ofModel_eq hsound.nodup hops hmem] at h
  split at h
  · cases h
  · next rs hrs =>
    split at h
    · cases h
      have hall := Outcome.mapM_eq_ok.mp hrs
      obtain ⟨op, hop, hsettle⟩ := Outcome.exists_of_mem_forall₂ hall (mem_sorted.mp hplan)
      obtain ⟨http, -, hrule⟩ := settle_eq_plan.mp hsettle
      exact ⟨op, hmem op hop, http, hrule⟩
    · cases h

theorem checked_of_mem_ofModel (hsound : model.Sound) {service : Option Shape}
    (hservice : ∀ s, service = some s → s ∈ model.shapes) {plans : List Plan}
    (h : ofModel model p service = .ok plans) {plan : Plan} (hplan : plan ∈ plans) :
    Checked model p plan := by
  obtain ⟨op, hop, http, hrule⟩ := exists_rule_of_mem_ofModel hsound hservice h hplan
  exact checked_of_ofRule hsound hop hrule

/-- The input of a plan is that of its operation. -/
theorem input_of_mem_ofModel (hsound : model.Sound) {service : Option Shape}
    (hservice : ∀ s, service = some s → s ∈ model.shapes) {plans : List Plan}
    (h : ofModel model p service = .ok plans) {plan : Plan} (hplan : plan ∈ plans) :
    model.lookup (Model.orUnit plan.operation.input) = .ok plan.input := by
  obtain ⟨op, hop, http, hrule⟩ := exists_rule_of_mem_ofModel hsound hservice h hplan
  obtain ⟨request, -, hrule⟩ := Outcome.bind_eq_ok.mp hrule
  obtain ⟨response, -, hrule⟩ := Outcome.bind_eq_ok.mp hrule
  obtain ⟨input, hinput, hrule⟩ := Outcome.bind_eq_ok.mp hrule
  obtain ⟨output, -, hrule⟩ := Outcome.bind_eq_ok.mp hrule
  obtain ⟨shapes, -, hrule⟩ := Outcome.bind_eq_ok.mp hrule
  obtain ⟨errors, -, hrule⟩ := Outcome.bind_eq_ok.mp hrule
  obtain ⟨⟨⟩, -, hrule⟩ := Outcome.bind_eq_ok.mp hrule
  obtain ⟨checksum, -, hrule⟩ := Outcome.bind_eq_ok.mp hrule
  obtain ⟨coverage, -, hrule⟩ := Outcome.bind_eq_ok.mp hrule
  cases hrule
  exact hinput

end

end Wireform.Plan
