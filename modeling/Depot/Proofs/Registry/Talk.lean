import Depot.Proofs.Registry.Exchange

/-! What is said in a session with a registry. A session takes a step for each blob, layers before the config,
    and then one for the manifest. `Assures` and `Abandons` are the exchanges for a blob with which the session
    goes on and those with which it ends; `Walk` puts them together for all blobs, `Talk` for a session, and
    `Begins` is what goes before it. `says_push` says that every push is of this form. -/

namespace Depot.Registry

/-! ### Requests -/

/-- The request that is sent to an address. -/
def requestTo (agent : Agent) (authorization : Option String) (method : Method) (url : Url)
    (contentType : Option String) (body : Bytes) : Request :=
  let authorization := authorization.or (url.credentials.bind fun c => basicAuthorization c.1 c.2)
  ⟨method, url.render, [("user-agent", agent.name)] ++ (authorization.map fun a => ("authorization", a)).toList ++
    (contentType.map fun t => ("content-type", t)).toList, body⟩

/-- The value of a header of a request. -/
def header? (name : String) (q : Request) : Option String := q.headers.lookup name

/-- The request publishes a manifest. -/
def IsManifest (q : Request) : Prop := q.method = .put ∧ header? "content-type" q = some MediaType.manifest

section Requests
variable {agent : Agent} {authorization : Option String} {method : Method} {url : Url} {contentType : Option String}
  {body : Bytes}

theorem contentType_requestTo :
    header? "content-type" (requestTo agent authorization method url contentType body) = contentType := by
  unfold header? requestTo
  cases authorization.or (url.credentials.bind fun c => basicAuthorization c.1 c.2) <;> cases contentType <;> rfl

theorem authorization_requestTo :
    header? "authorization" (requestTo agent authorization method url contentType body) =
      authorization.or (url.credentials.bind fun c => basicAuthorization c.1 c.2) := by
  unfold header? requestTo
  cases authorization.or (url.credentials.bind fun c => basicAuthorization c.1 c.2) <;> cases contentType <;> rfl

theorem isManifest_requestTo :
    IsManifest (requestTo agent authorization method url contentType body) ↔
      method = .put ∧ contentType = some MediaType.manifest := by
  unfold IsManifest
  rw [contentType_requestTo]
  rfl

end Requests

namespace Session

/-- The address of a path below the repository of a session. -/
def below (s : Session) (path : String) : Option Url :=
  Url.parse? (s.reference.endpoint ++ "/v2/" ++ s.reference.repository ++ path)

/-- The request of a session to an address. -/
def request (s : Session) (method : Method) (url : Url) (contentType : Option String) (body : Bytes) : Request :=
  requestTo s.agent s.authorization method url contentType body

/-- The question whether the registry has a blob. -/
def Asks (s : Session) (b : Blob) (q : Request) : Prop :=
  ∃ url, s.below ("/blobs/" ++ b.digest) = some url ∧ q = s.request .head url none []

/-- The question where a blob should go. -/
def Starts (s : Session) (q : Request) : Prop :=
  ∃ url, s.below "/blobs/uploads/" = some url ∧ q = s.request .post url none []

/-- The upload of a blob to where a response says. -/
def Uploads (s : Session) (b : Blob) (response : Response) (q : Request) : Prop :=
  ∃ location url, locationOf response = some location ∧ s.uploadAddress location b = .ok url ∧
    q = s.request .put url (some MediaType.bytes) b.data

/-- The publication of a manifest. -/
def Publishes (s : Session) (manifest : Bytes) (q : Request) : Prop :=
  ∃ url, s.below ("/manifests/" ++ s.reference.manifestName) = some url ∧
    q = s.request .put url (some MediaType.manifest) manifest

/-! ### One blob -/

/-- The registry is shown to have a blob: it says so, or it takes the blob. -/
inductive Assures (s : Session) (b : Blob) : List Exchange → Prop
  | present {ask : Exchange} (hask : s.Asks b ask.request) (has : ask.Answered (Status.isSuccess · = true)) :
      Assures s b [ask]
  | uploaded {ask start put : Exchange} {response : Response} (hask : s.Asks b ask.request)
      (hasNot : ask.Answered (Status.isSuccess · = false)) (hstart : s.Starts start.request)
      (hanswer : start.reply = .answer response) (haccepted : response.status = Status.accepted)
      (hput : s.Uploads b response put.request) (hcreated : put.Answered (· = Status.created)) :
      Assures s b [ask, start, put]

/-- The session ends at a blob: a request has no address, is not answered, or is answered with a refusal. -/
inductive Abandons (s : Session) (b : Blob) : List Exchange → Prop
  | nowhere (haddress : s.below ("/blobs/" ++ b.digest) = none) : Abandons s b []
  | unanswered {ask : Exchange} (hask : s.Asks b ask.request) (hno : ¬ask.Answered fun _ => True) : Abandons s b [ask]
  | noStart {ask : Exchange} (hask : s.Asks b ask.request) (hasNot : ask.Answered (Status.isSuccess · = false))
      (haddress : s.below "/blobs/uploads/" = none) : Abandons s b [ask]
  | notStarted {ask start : Exchange} (hask : s.Asks b ask.request)
      (hasNot : ask.Answered (Status.isSuccess · = false)) (hstart : s.Starts start.request)
      (hno : ¬start.Answered (· = Status.accepted)) : Abandons s b [ask, start]
  | noLocation {ask start : Exchange} {response : Response} (hask : s.Asks b ask.request)
      (hasNot : ask.Answered (Status.isSuccess · = false)) (hstart : s.Starts start.request)
      (hanswer : start.reply = .answer response) (hlocation : ∀ q, ¬s.Uploads b response q) :
      Abandons s b [ask, start]
  | refused {ask start put : Exchange} {response : Response} (hask : s.Asks b ask.request)
      (hasNot : ask.Answered (Status.isSuccess · = false)) (hstart : s.Starts start.request)
      (hanswer : start.reply = .answer response) (haccepted : response.status = Status.accepted)
      (hput : s.Uploads b response put.request) (hno : ¬put.Answered (· = Status.created)) :
      Abandons s b [ask, start, put]

/-- A request to a path below the repository is one exchange, unless the path has no address. -/
theorem says_sendBelow (s : Session) (method : Method) (path : String) (contentType : Option String) (body : Bytes) :
    Says (s.sendBelow method path contentType body) fun es r =>
      (s.below path = none ∧ es = [] ∧ r = .error .http) ∨
        ∃ url reply, s.below path = some url ∧ es = [⟨s.request method url contentType body, reply⟩] ∧
          r = reply.result := by
  unfold sendBelow sendToText
  cases h : s.below path with
  | none =>
    unfold below at h
    rw [h]
    exact .fail _ (Or.inl ⟨rfl, rfl, rfl⟩)
  | some url =>
    unfold below at h
    rw [h]
    exact .send _ fun reply => Or.inr ⟨url, reply, rfl, rfl, rfl⟩

/-- Asking for a blob: no answer, or the answer whether it is there. -/
theorem says_hasBlob (s : Session) (b : Blob) :
    Says (s.hasBlob b) fun es r =>
      (s.Abandons b es ∧ ∃ e, r = .error e) ∨
        ∃ ask has, es = [ask] ∧ s.Asks b ask.request ∧ ask.Answered (Status.isSuccess · = has) ∧ r = .ok has := by
  refine (says_sendBelow s .head _ none []).bind ?_ ?_
  · rintro es e (⟨haddress, rfl, -⟩ | ⟨url, reply, hurl, rfl, hr⟩)
    · exact Or.inl ⟨.nowhere haddress, e, rfl⟩
    · exact Or.inl ⟨.unanswered ⟨url, hurl, rfl⟩ (Exchange.not_answered hr _), e, rfl⟩
  · rintro es response (⟨-, -, hr⟩ | ⟨url, reply, hurl, rfl, hr⟩)
    · cases hr
    · exact .pure _ (Or.inr ⟨_, _, rfl, ⟨url, hurl, rfl⟩, ⟨response, Reply.eq_answer hr, rfl⟩, rfl⟩)

/-- Sending a blob to its address is one exchange. It succeeds when the blob is taken. -/
theorem says_sendBlob (s : Session) (b : Blob) (url : Url) :
    Says (s.send .put url (some MediaType.bytes) b.data >>= fun response =>
      if response.status ≠ Status.created then Act.fail (.registry (.blobRefused b.digest (Status.render response.status)))
      else pure ()) fun es r => ∃ put : Exchange, es = [put] ∧ put.request = s.request .put url (some MediaType.bytes) b.data ∧
        (r = .ok () ∧ put.Answered (· = Status.created) ∨ (∃ e, r = .error e) ∧ ¬put.Answered (· = Status.created)) := by
  refine (Says.send (s.request .put url (some MediaType.bytes) b.data) (P := fun es r => ∃ reply,
    es = [⟨s.request .put url (some MediaType.bytes) b.data, reply⟩] ∧ r = reply.result) fun reply => ⟨reply, rfl, rfl⟩).bind ?_ ?_
  · rintro _ e ⟨reply, rfl, hr⟩
    exact ⟨_, rfl, rfl, Or.inr ⟨⟨e, rfl⟩, Exchange.not_answered hr _⟩⟩
  · rintro _ response ⟨reply, rfl, hr⟩
    obtain rfl := Reply.eq_answer hr
    split
    · next hstatus => exact .fail _ ⟨_, rfl, rfl, Or.inr ⟨⟨_, rfl⟩, mt Exchange.answered_iff.mp hstatus⟩⟩
    · next hstatus =>
      exact .pure _ ⟨_, rfl, rfl, Or.inl ⟨rfl, Exchange.answered_iff.mpr (Decidable.not_not.mp hstatus)⟩⟩

/-- Uploading a blob that was asked for and is not there. -/
theorem says_upload (s : Session) (b : Blob) :
    Says (s.upload b) fun es r => ∀ ask, s.Asks b ask.request → ask.Answered (Status.isSuccess · = false) →
      (r = .ok () ∧ s.Assures b (ask :: es)) ∨ ((∃ e, r = .error e) ∧ s.Abandons b (ask :: es)) := by
  unfold upload
  refine (says_sendBelow s .post _ none []).bind ?_ ?_
  · rintro es e (⟨haddress, rfl, -⟩ | ⟨url, reply, hurl, rfl, hr⟩) ask hask hasNot
    · exact Or.inr ⟨⟨e, rfl⟩, .noStart hask hasNot haddress⟩
    · exact Or.inr ⟨⟨e, rfl⟩, .notStarted hask hasNot ⟨url, hurl, rfl⟩ (Exchange.not_answered hr _)⟩
  · rintro es response (⟨-, -, hr⟩ | ⟨url, reply, hurl, rfl, hr⟩)
    · cases hr
    · obtain rfl := Reply.eq_answer hr
      split
      · next hstatus =>
        exact .fail _ fun ask hask hasNot =>
          Or.inr ⟨⟨_, rfl⟩, .notStarted hask hasNot ⟨url, hurl, rfl⟩ (mt Exchange.answered_iff.mp hstatus)⟩
      · next hstatus =>
        have hstatus : response.status = Status.accepted := Decidable.not_not.mp hstatus
        -- The response says where the blob should go, or nothing is sent any more.
        cases hlocation : locationOf response with
        | none =>
          refine .fail _ fun ask hask hasNot => Or.inr ⟨⟨_, rfl⟩, .noLocation hask hasNot ⟨url, hurl, rfl⟩ rfl ?_⟩
          rintro q ⟨location, _, hl, -⟩
          rw [hlocation] at hl
          cases hl
        | some location =>
          dsimp only
          cases haddress : s.uploadAddress location b with
          | error e =>
            rw [Act.ofExcept_error_bind]
            refine .fail _ fun ask hask hasNot => Or.inr ⟨⟨_, rfl⟩, .noLocation hask hasNot ⟨url, hurl, rfl⟩ rfl ?_⟩
            rintro q ⟨location', _, hl, ha, -⟩
            rw [hlocation] at hl
            cases hl
            rw [haddress] at ha
            cases ha
          | ok target =>
            have hput : s.Uploads b response (s.request .put target (some MediaType.bytes) b.data) :=
              ⟨location, target, hlocation, haddress, rfl⟩
            rw [Act.ofExcept_ok_bind]
            refine (s.says_sendBlob b target).mono ?_
            rintro _ r ⟨put, rfl, hrequest, hends⟩ ask hask hasNot
            rw [← hrequest] at hput
            rcases hends with ⟨rfl, hcreated⟩ | ⟨he, hno⟩
            · exact Or.inl ⟨rfl, .uploaded hask hasNot ⟨url, hurl, rfl⟩ rfl hstatus hput hcreated⟩
            · exact Or.inr ⟨he, .refused hask hasNot ⟨url, hurl, rfl⟩ rfl hstatus hput hno⟩

/-! ### All blobs -/

/-- What is exchanged for some blobs, one after the other up to the first at which the session ends. The flag
    tells whether it got through all of them. -/
inductive Walk (s : Session) : List Blob → List Exchange → Bool → Prop
  | nil : Walk s [] [] true
  | assured {b : Blob} {bs : List Blob} {es fs : List Exchange} {through : Bool} (hes : s.Assures b es)
      (hfs : Walk s bs fs through) : Walk s (b :: bs) (es ++ fs) through
  | abandoned {b : Blob} {bs : List Blob} {es : List Exchange} (hes : s.Abandons b es) : Walk s (b :: bs) es false

theorem says_tell (quiet : Bool) (line : String) : Says (Progress.tell quiet line) fun es r => es = [] ∧ r = .ok () := by
  unfold Progress.tell
  split
  · exact .pure _ ⟨rfl, rfl⟩
  · exact .of_wire fun _ => ⟨rfl, rfl, rfl⟩

theorem says_tell_bind {α : Type} {quiet : Bool} {line : String} {f : Unit → Act Host α}
    {P : List Exchange → Except Error α → Prop} (h : Says (f ()) P) : Says (Progress.tell quiet line >>= f) P :=
  (says_tell quiet line).bind (by simp) fun _ _ ⟨hes, _⟩ => by
    subst hes
    exact h

theorem says_pushBlobs (s : Session) (quiet : Bool) (bs : List Blob) :
    Says (s.pushBlobs quiet bs) fun es r => s.Walk bs es r.isOk := by
  induction bs with
  | nil => exact .pure _ .nil
  | cons b bs ih =>
    refine (s.says_hasBlob b).bind ?_ ?_
    · rintro es e (⟨hes, -⟩ | ⟨_, _, -, -, -, hr⟩)
      · exact .abandoned hes
      · cases hr
    · rintro es has (⟨-, _, hr⟩ | ⟨ask, _, rfl, hask, hanswer, ⟨⟩⟩)
      · cases hr
      · cases has with
        | true => exact says_tell_bind (ih.mono fun fs r hfs => .assured (.present hask hanswer) hfs)
        | false =>
          refine (s.says_upload b).bind ?_ ?_
          · intro fs e hfs
            rcases hfs ask hask hanswer with ⟨hr, -⟩ | ⟨-, hfs⟩
            · cases hr
            · exact .abandoned hfs
          · intro fs _ hfs
            rcases hfs ask hask hanswer with ⟨-, hfs⟩ | ⟨⟨_, hr⟩, -⟩
            · refine says_tell_bind (ih.mono fun gs r hgs => ?_)
              rw [← List.append_assoc]
              exact .assured hfs hgs
            · cases hr

/-! ### Whole sessions -/

/-- What is exchanged in a session: the blobs, and behind them the manifest, unless the session ended before.
    The flag tells whether the manifest was taken. -/
inductive Talk (s : Session) (blobs : List Blob) (manifest : Bytes) : List Exchange → Bool → Prop
  | abandoned {es : List Exchange} (hes : s.Walk blobs es false) : Talk s blobs manifest es false
  | nowhere {es : List Exchange} (hes : s.Walk blobs es true)
      (haddress : s.below ("/manifests/" ++ s.reference.manifestName) = none) : Talk s blobs manifest es false
  | refused {es : List Exchange} {put : Exchange} (hes : s.Walk blobs es true) (hput : s.Publishes manifest put.request)
      (hno : ¬put.Answered (Status.isSuccess · = true)) : Talk s blobs manifest (es ++ [put]) false
  | published {es : List Exchange} {put : Exchange} (hes : s.Walk blobs es true)
      (hput : s.Publishes manifest put.request) (hyes : put.Answered (Status.isSuccess · = true)) :
      Talk s blobs manifest (es ++ [put]) true

theorem says_putManifest (s : Session) (manifest : Bytes) {blobs : List Blob} {es : List Exchange}
    (hes : s.Walk blobs es true) :
    Says (s.putManifest manifest) fun fs r => s.Talk blobs manifest (es ++ fs) r.isOk := by
  refine (says_sendBelow s .put _ (some MediaType.manifest) manifest).bind ?_ ?_
  · rintro fs e (⟨haddress, rfl, -⟩ | ⟨url, reply, hurl, rfl, hr⟩)
    · rw [List.append_nil]
      exact .nowhere hes haddress
    · exact .refused hes ⟨url, hurl, rfl⟩ (Exchange.not_answered hr _)
  · rintro fs response (⟨-, -, hr⟩ | ⟨url, reply, hurl, rfl, hr⟩)
    · cases hr
    · obtain rfl := Reply.eq_answer hr
      split
      · next hstatus => exact .pure _ (.published hes ⟨url, hurl, rfl⟩ (Exchange.answered_iff.mpr hstatus))
      · next hstatus => exact .fail _ (.refused hes ⟨url, hurl, rfl⟩ (mt Exchange.answered_iff.mp hstatus))

theorem says_rest (s : Session) (quiet : Bool) (blobs : List Blob) (manifest : Bytes) :
    Says (s.pushBlobs quiet blobs >>= fun _ => Progress.manifest quiet >>= fun _ => s.putManifest manifest)
      fun es r => s.Talk blobs manifest es r.isOk := by
  refine (s.says_pushBlobs quiet blobs).bind (fun es e hes => .abandoned hes) fun es _ hes => ?_
  exact says_tell_bind (s.says_putManifest manifest hes)

end Session

/-! ### The beginning -/

/-- What is exchanged before a session, and the session that begins, if one does: only the default registry is
    asked for a token, and the session carries the one that it gives. -/
inductive Begins (agent : Agent) (r : Reference) : List Exchange → Option Session → Prop
  | plain (hr : r.registry ≠ defaultRegistry) : Begins agent r [] (some ⟨agent, r, none⟩)
  | nowhere (hr : r.registry = defaultRegistry) (haddress : Url.parse? (tokenAddress r) = none) : Begins agent r [] none
  | without {url : Url} {reply : Reply} (hr : r.registry = defaultRegistry) (haddress : Url.parse? (tokenAddress r) = some url)
      (hno : (Exchange.mk (requestTo agent none .get url none []) reply).Answered (Status.isSuccess · = false)) :
      Begins agent r [⟨requestTo agent none .get url none [], reply⟩] (some ⟨agent, r, none⟩)
  | granted {url : Url} {response : Response} {token : String} (hr : r.registry = defaultRegistry)
      (haddress : Url.parse? (tokenAddress r) = some url) (hyes : Status.isSuccess response.status = true)
      (htoken : tokenOf response.body = some token) (hheader : token.toList.all isHeaderChar = true) :
      Begins agent r [⟨requestTo agent none .get url none [], .answer response⟩] (some ⟨agent, r, some ("Bearer " ++ token)⟩)
  | unanswered {url : Url} {reply : Reply} (hr : r.registry = defaultRegistry)
      (haddress : Url.parse? (tokenAddress r) = some url)
      (hno : ¬(Exchange.mk (requestTo agent none .get url none []) reply).Answered fun _ => True) :
      Begins agent r [⟨requestTo agent none .get url none [], reply⟩] none
  | unusable {url : Url} {response : Response} (hr : r.registry = defaultRegistry)
      (haddress : Url.parse? (tokenAddress r) = some url) (hyes : Status.isSuccess response.status = true)
      (htoken : ∀ token, tokenOf response.body = some token → token.toList.all isHeaderChar = false) :
      Begins agent r [⟨requestTo agent none .get url none [], .answer response⟩] none

/-- The session that an answer about a token begins. -/
def opened (agent : Agent) (r : Reference) : Option String → Option Session
  | none => some ⟨agent, r, none⟩
  | some token =>
    if token.toList.all isHeaderChar then some ⟨agent, r, some ("Bearer " ++ token)⟩ else none

section Opened
variable {agent : Agent} {r : Reference} {token : String}

theorem opened_of_header (h : token.toList.all isHeaderChar = true) :
    opened agent r (some token) = some ⟨agent, r, some ("Bearer " ++ token)⟩ := if_pos h

theorem opened_of_not_header (h : ¬token.toList.all isHeaderChar = true) : opened agent r (some token) = none := if_neg h

end Opened

theorem says_requestToken (agent : Agent) (r : Reference) :
    Says (requestToken agent r) fun es t => Begins agent r es (t.toOption.bind (opened agent r)) := by
  unfold requestToken
  split
  · next hr =>
    unfold sendToText
    cases haddress : Url.parse? (tokenAddress r) with
    | none => exact .fail _ (.nowhere hr haddress)
    | some url =>
      refine (Says.send (requestTo agent none .get url none [])
        (P := fun es t => ∃ reply, es = [⟨requestTo agent none .get url none [], reply⟩] ∧ t = reply.result)
        fun reply => ⟨reply, rfl, rfl⟩).bind ?_ ?_
      · rintro es e ⟨reply, rfl, ht⟩
        exact .unanswered hr haddress (Exchange.not_answered ht _)
      · rintro es response ⟨reply, rfl, ht⟩
        obtain rfl := Reply.eq_answer ht
        -- An answer that succeeds must bring a token; any other means that none is wanted.
        split
        · next hyes =>
          cases htoken : tokenOf response.body with
          | none => exact .fail _ (.unusable hr haddress hyes (by simp [htoken]))
          | some token =>
            refine .pure _ ?_
            show Begins agent r _ (opened agent r (some token))
            by_cases hheader : token.toList.all isHeaderChar = true
            · rw [opened_of_header hheader]
              exact .granted hr haddress hyes htoken hheader
            · rw [opened_of_not_header hheader]
              refine .unusable hr haddress hyes fun t ht => ?_
              obtain rfl : token = t := Option.some.inj (htoken.symm.trans ht)
              exact Bool.eq_false_iff.mpr hheader
        · next hno => exact .pure _ (.without hr haddress ⟨response, rfl, by simpa using hno⟩)
  · next hr => exact .pure _ (.plain hr)

theorem says_begin (agent : Agent) (r : Reference) : Says (begin agent r) fun es s => Begins agent r es s.toOption := by
  unfold Registry.begin
  refine (says_requestToken agent r).bind (fun es e hes => hes) fun es token hes => ?_
  rw [← List.append_nil es] at hes
  cases token with
  | none => exact .pure _ hes
  | some token =>
    change Begins agent r (es ++ []) (opened agent r (some token)) at hes
    dsimp only
    split
    · next hheader =>
      rw [opened_of_header hheader] at hes
      exact .pure _ hes
    · next hheader =>
      rw [opened_of_not_header hheader] at hes
      exact .fail _ hes

/-- A push is a session that does not begin, or one that begins and goes on to its end. -/
theorem says_push (agent : Agent) (r : Reference) (config : Blob) (layers : List Blob) (manifest : Bytes) (quiet : Bool) :
    Says (push agent r config layers manifest quiet) fun es result =>
      (Begins agent r es none ∧ result.isOk = false) ∨
        ∃ s token talk, es = token ++ talk ∧ Begins agent r token (some s) ∧
          s.Talk (layers ++ [config]) manifest talk result.isOk := by
  refine (says_begin agent r).bind (fun es e hes => Or.inl ⟨hes, rfl⟩) fun es s hes => ?_
  exact (s.says_rest quiet (layers ++ [config]) manifest).mono fun fs result hfs => Or.inr ⟨s, es, fs, rfl, hes, hfs⟩

end Depot.Registry
