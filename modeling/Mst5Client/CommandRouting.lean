import Mst5Client.BrowserRequests
import Mst5Client.JsonCbor

set_option autoImplicit false

/-!
# Routing of commands

`command_json` of `messenger.rs` and `command` of `wasm/src/lib.rs` turn a JSON command into a
frame.
-/
namespace Mst5Client.CommandRouting
open IoResult HttpResponses JsonValues JsonCbor BrowserRequests
open BrowserRecords (JsError)
open CborValues (Value)

abbrev Route := (String × String) × ℕ

def get (path : String) (code : ℕ) : Route := (("GET", path), code)

def post (path : String) (code : ℕ) : Route := (("POST", path), code)

def nativeTable : List Route :=
  [post "/register" 1, post "/login" 2, post "/auth/email/start" 3, post "/auth/email/verify" 4,
    post "/auth/qr/start" 98, get "/auth/qr/poll" 99, post "/auth/qr/approve" 100, get "/me" 5,
    post "/account/delete" 6, get "/account/inactivity" 90, post "/account/inactivity" 91,
    post "/username" 7, post "/name" 8, post "/privacy" 9, get "/contacts" 10,
    post "/contacts/add" 11, post "/contacts/delete" 12, post "/groups" 13, post "/channels" 14,
    post "/chats/title" 15, post "/channels/username" 16, post "/channels/comments/settings" 17,
    post "/channels/comments/send" 18, get "/channels/comments" 19, post "/chats/members/add" 20,
    post "/chats/members/remove" 21, post "/cloud-password" 22, post "/cloud-password/reset" 23,
    get "/sessions" 24, post "/sessions/revoke" 25, post "/sessions/revoke-others" 26,
    post "/bots" 27, post "/bots/token/reset" 28, get "/bots/commands" 79, get "/stickers/packs" 80,
    get "/stickers/pack" 81, post "/stickers/packs" 82, post "/stickers/packs/purchase" 83,
    post "/stickers/send" 84, post "/stickers/packs/price" 85, post "/e2e/key" 29,
    get "/e2e/key" 30, post "/e2e/backup" 31, get "/e2e/backup" 32, post "/e2e/reset" 33,
    get "/wallet" 34, post "/wallet/send" 35, get "/wallet/history" 36, post "/call" 37,
    post "/voice-ticket" 38, get "/voice/participants" 39, post "/send" 40, post "/edit" 41,
    post "/pin" 92, post "/polls/vote" 93, get "/chats/favorites" 94, post "/chats/favorite" 95,
    post "/callback" 42, post "/reactions" 43, post "/reactions/paid" 44, post "/read" 45,
    post "/delete" 46, post "/favorite" 47, get "/nodes/status" 50, get "/chats" 51,
    post "/chats/delete" 52, post "/users/ban" 53, post "/users/unban" 54, get "/history" 55,
    get "/updates" 56, get "/oauth/device/request" 60, post "/oauth/device/decision" 61,
    get "/file/ticket" 65, post "/forward" 69, post "/media/quote" 70, post "/messages/prepare" 71,
    post "/messages/commit" 72, post "/messages/cancel" 73, post "/avatars/prepare" 86,
    post "/avatars/commit" 87, post "/avatars/delete" 88, post "/profiles/description" 74]

def browserTable : List Route :=
  [post "/register" 1, post "/login" 2, post "/auth/email/start" 3, post "/auth/email/verify" 4,
    post "/auth/qr/start" 98, get "/auth/qr/poll" 99, post "/auth/qr/approve" 100, get "/me" 5,
    post "/account/delete" 6, post "/username" 7, post "/name" 8, post "/privacy" 9,
    get "/contacts" 10, post "/contacts/add" 11, post "/contacts/delete" 12, post "/groups" 13,
    post "/channels" 14, post "/chats/title" 15, post "/channels/username" 16,
    post "/channels/comments/settings" 17, post "/channels/comments/send" 18,
    get "/channels/comments" 19, post "/chats/members/add" 20, post "/chats/members/remove" 21,
    post "/cloud-password" 22, post "/cloud-password/reset" 23, get "/sessions" 24,
    post "/sessions/revoke" 25, post "/sessions/revoke-others" 26, post "/bots" 27,
    post "/bots/token/reset" 28, post "/e2e/key" 29, get "/e2e/key" 30, post "/e2e/backup" 31,
    get "/e2e/backup" 32, post "/e2e/reset" 33, get "/wallet" 34, post "/wallet/send" 35,
    get "/wallet/history" 36, post "/call" 37, post "/voice-ticket" 38,
    get "/voice/participants" 39, post "/send" 40, post "/edit" 41, post "/callback" 42,
    post "/reactions" 43, post "/reactions/paid" 44, post "/read" 45, post "/delete" 46,
    post "/favorite" 47, get "/nodes/status" 50, get "/chats" 51, post "/chats/delete" 52,
    post "/users/ban" 53, post "/users/unban" 54, get "/history" 55, get "/updates" 56,
    get "/oauth/device/request" 60, post "/oauth/device/decision" 61, get "/file/ticket" 65,
    post "/forward" 69, post "/media/quote" 70, post "/messages/prepare" 71,
    post "/messages/commit" 72, post "/messages/cancel" 73, post "/pin" 92, post "/polls/vote" 93,
    get "/chats/favorites" 94, post "/chats/favorite" 95, get "/chats/folders" 96,
    post "/chats/folder" 97, post "/avatars/prepare" 86, post "/avatars/commit" 87,
    post "/avatars/delete" 88, post "/profiles/description" 74, get "/bots/commands" 79,
    get "/stickers/packs" 80, get "/stickers/pack" 81, post "/stickers/packs" 82,
    post "/stickers/packs/purchase" 83, post "/stickers/send" 84, post "/stickers/packs/price" 85]

def unsupported (method path : String) : String :=
  "unsupported MST5 operation " ++ method ++ " " ++ path

def nativeOperation (method path : String) : Except IoError ℕ :=
  match nativeTable.lookup (method, path) with
  | some code => .ok code
  | none => .error (invalidInput (unsupported method path))

def browserOperation (method path : String) : Except JsError ℕ :=
  match browserTable.lookup (method, path) with
  | some code => .ok code
  | none => .error ⟨unsupported method path⟩

section Native

structure NativeCommand where
  token : String
  kind : UInt8
  opcode : ℕ
  payload : Value
  timeoutMs : ℕ

def stringField (object : Json) (key : String) : Except IoError String :=
  match (object.get key).bind Json.asStr with
  | some value => .ok value
  | none => .error (invalidInput ("messenger JSON command is missing string " ++ key))

def stringFieldOr (object : Json) (key fallback : String) : String :=
  ((object.get key).bind Json.asStr).getD fallback

def splitQuery (path : String) : String × Option String :=
  match splitOnce '?' path.toList with
  | some (path, query) => (String.ofList path, some (String.ofList query))
  | none => (path, none)

def nativePayload (object : Json) (method : String) (query : Option String) : Json :=
  if method = "GET" then
    match query with
    | some value => if value ≠ "" then .object [("query", .string value)] else .object []
    | none => .object []
  else (object.get "body").getD (.object [])

variable (nearest : ℤ → UInt64)

def commandJson (input : Json) : Except IoError NativeCommand :=
  match input with
  | .object _ => do
    let token ← stringField input "token"
    let method := upper (stringFieldOr input "method" "GET")
    let rawPath := stringFieldOr input "path" "/"
    let timeoutMs := max 1 (min ((((input.get "timeout_ms").bind Json.asU64).map UInt64.toNat).getD
      10000) 120000)
    let (path, query) := splitQuery rawPath
    let opcode ← nativeOperation method path
    let payload ← jsonToCbor nearest (nativePayload input method query)
    return ⟨token, if method = "GET" then kindQuery else kindCommand, opcode, payload, timeoutMs⟩
  | _ => .error (invalidInput "messenger JSON command must be an object")

/-- The JSON value that a reader of the encoded payload gets, by `CborRoundTrip.decode_encode`. -/
def NativeCommand.denotes (command : NativeCommand) : Json :=
  cborToJson (CborRoundTrip.norm command.payload)

end Native

variable {J : Type} {nearest : ℤ → UInt64} {input : Json} {method path : String} {query : Option String}
variable {key : String} {value : Json}

theorem tables_agree : ∀ entry ∈ nativeTable, ∀ code ∈ browserTable.lookup entry.1,
    code = entry.2 := by decide +kernel

theorem operations_agree {native browser : ℕ} (hnative : nativeOperation method path = .ok native)
    (hbrowser : browserOperation method path = .ok browser) : native = browser := by
  unfold nativeOperation at hnative
  unfold browserOperation at hbrowser
  split at hnative
  next code hcode =>
    split at hbrowser
    next code' hcode' =>
      cases hnative
      cases hbrowser
      obtain ⟨before, after, htable, -⟩ := List.lookup_eq_some_iff.mp hcode
      have hmem : ((method, path), native) ∈ nativeTable := by
        rw [htable]
        exact List.mem_append_right _ List.mem_cons_self
      exact (tables_agree _ hmem browser hcode').symm
    next => cases hbrowser
  next => cases hnative

def browserPayload (object : Json) (method : String) (query : Option String) : Json :=
  if method = "GET" then
    match query with
    | some query => .object [("query", .string query)]
    | none => .object []
  else (object.get "body").getD (.object [])

theorem payloads_agree_iff :
    nativePayload input method query = browserPayload input method query ↔
      ¬ (method = "GET" ∧ query = some "") := by
  unfold nativePayload browserPayload
  by_cases hget : method = "GET"
  · rw [if_pos hget, if_pos hget]
    cases query with
    | none => simp
    | some value =>
      by_cases hempty : value = ""
      · simp [hget, hempty]
      · simp [hempty]
  · rw [if_neg hget, if_neg hget]
    exact iff_of_true rfl fun h => hget h.1

theorem maps_lookup {members : List (String × Json)} (h : MembersMaps members)
    (hlookup : members.lookup key = some value) : Maps value := by
  induction members with
  | nil => cases hlookup
  | cons member members ih =>
    rw [lookup_cons_ite] at hlookup
    split_ifs at hlookup
    · cases hlookup
      exact h.1
    · exact ih h.2 hlookup

theorem object_of_get (h : input.get key = some value) : ∃ members, input = .object members := by
  cases input with
  | object members => exact ⟨members, rfl⟩
  | null => cases h
  | bool _ => cases h
  | number _ => cases h
  | string _ => cases h
  | array _ => cases h

theorem maps_get (h : Maps input) (hget : input.get key = some value) : Maps value := by
  obtain ⟨members, rfl⟩ := object_of_get hget
  exact maps_lookup h.2 hget

theorem maps_nativePayload (h : Maps input) : Maps (nativePayload input method query) := by
  have hempty : Maps (.object []) := ⟨List.Pairwise.nil, trivial⟩
  have hsingle : ∀ value, Maps (.object [("query", .string value)]) := fun value =>
    ⟨List.pairwise_singleton _ _, trivial, trivial⟩
  unfold nativePayload
  by_cases hget : method = "GET"
  · rw [if_pos hget]
    cases query with
    | none => exact hempty
    | some value =>
      dsimp only
      split_ifs
      · exact hsingle value
      · exact hempty
  · rw [if_neg hget]
    cases hbody : input.get "body" with
    | none => exact hempty
    | some body => exact maps_get h hbody

theorem commandJson_eq_ok {token : String} {opcode : ℕ} (hmaps : Maps input)
    (htoken : (input.get "token").bind Json.asStr = some token)
    (hmethod : (input.get "method").bind Json.asStr = some method)
    (hpath : (input.get "path").bind Json.asStr = some path)
    (hopcode : nativeOperation (upper method) (splitQuery path).1 = .ok opcode) :
    ∃ command, commandJson nearest input = .ok command ∧
      command.kind = (if upper method = "GET" then kindQuery else kindCommand) ∧
        command.opcode = opcode ∧
      command.denotes = nativePayload input (upper method) (splitQuery path).2 := by
  obtain ⟨field, hfield, -⟩ := Option.bind_eq_some_iff.mp htoken
  obtain ⟨members, rfl⟩ := object_of_get hfield
  obtain ⟨v, hv, hreturn⟩ := jsonToCbor_returns nearest (nativePayload (.object members) (upper method)
    (splitQuery path).2) (maps_nativePayload hmaps)
  have hstring : stringField (.object members) "token" = .ok token := by rw [stringField, htoken]
  have hmethod' : stringFieldOr (.object members) "method" "GET" = method := by
    rw [stringFieldOr, hmethod]; rfl
  have hpath' : stringFieldOr (.object members) "path" "/" = path := by rw [stringFieldOr, hpath]; rfl
  rw [commandJson, bind_of_ok hstring, hmethod', hpath']
  dsimp only
  rw [bind_of_ok hopcode, bind_of_ok hv]
  exact ⟨_, rfl, rfl, rfl, hreturn.back⟩

theorem commandQuery_eq_ok {code : ℕ} (serde : Serde J)
    (hmethod : (input.get "method").bind Json.asStr = some method)
    (hpath : (input.get "path").bind Json.asStr = some path)
    (hcode : browserOperation (upper method) (splitQuery path).1 = .ok code) :
    commandQuery { serde with operation := browserOperation } input =
      .ok ⟨if upper method = "GET" then kindQuery else kindCommand, code,
        browserPayload input (upper method) (splitQuery path).2⟩ := by
  obtain ⟨field, hfield, -⟩ := Option.bind_eq_some_iff.mp hmethod
  obtain ⟨members, rfl⟩ := object_of_get hfield
  rw [commandQuery, hmethod, hpath]
  unfold splitQuery at hcode ⊢
  dsimp only [Option.getD_some]
  cases hsplit : splitOnce '?' path.toList with
  | none =>
    rw [hsplit] at hcode
    rw [bind_of_ok hcode]
    rfl
  | some parts =>
    rw [hsplit] at hcode
    rw [bind_of_ok hcode]
    rfl

/-- The clients send the same request exactly where it is not a GET with an empty query. -/
theorem commands_agree_iff (nearest : ℤ → UInt64) (serde : Serde J) (input : JsonValue)
    (token method path : String) (htoken : (input.tree.get "token").bind Json.asStr = some token)
    (hmethod : (input.tree.get "method").bind Json.asStr = some method)
    (hpath : (input.tree.get "path").bind Json.asStr = some path)
    (hnative : ∃ opcode, nativeOperation (upper method) (splitQuery path).1 = .ok opcode)
    (hbrowser : ∃ code, browserOperation (upper method) (splitQuery path).1 = .ok code) :
    ∃ command query, commandJson nearest input.tree = .ok command ∧
      commandQuery { serde with operation := browserOperation } input.tree = .ok query ∧
      ((command.kind = query.kind ∧ command.opcode = query.code ∧ command.denotes = query.body) ↔
        ¬ (upper method = "GET" ∧ (splitQuery path).2 = some "")) := by
  obtain ⟨opcode, hopcode⟩ := hnative
  obtain ⟨code, hcode⟩ := hbrowser
  obtain ⟨command, hcommand, hkind, hopcode', hdenotes⟩ :
      ∃ command, commandJson nearest input.tree = .ok command ∧
        command.kind = (if upper method = "GET" then kindQuery else kindCommand) ∧
          command.opcode = opcode ∧
        command.denotes = nativePayload input.tree (upper method) (splitQuery path).2 :=
    commandJson_eq_ok input.maps htoken hmethod hpath hopcode
  have hpayloads : nativePayload input.tree (upper method) (splitQuery path).2 =
      browserPayload input.tree (upper method) (splitQuery path).2 ↔ _ := payloads_agree_iff
  refine ⟨command, _, hcommand, commandQuery_eq_ok serde hmethod hpath hcode, ?_⟩
  dsimp only
  rw [hdenotes, ← hpayloads]
  have hsame : command.opcode = code := hopcode'.trans (operations_agree hopcode hcode)
  exact ⟨fun h => h.2.2, fun h => ⟨hkind, hsame, h⟩⟩

def meCommand (path : String) : JsonValue where
  tree := .object [("method", .string "get"), ("path", .string path), ("token", .string "t")]
  maps := by
    refine ⟨?_, trivial, trivial, trivial, trivial⟩
    simp only [Ascending, List.pairwise_cons, List.mem_cons, List.not_mem_nil, or_false,
      forall_eq_or_imp, forall_eq, false_imp_iff, implies_true, List.Pairwise.nil, and_true]
    decide

def bareSerde : Serde Unit := ⟨fun _ => none, fun _ => none, fun _ => none, browserOperation⟩

theorem commands_agree_iff_sample :
    ∃ command query, commandJson (fun _ => 0) (meCommand "/me?fields=name").tree = .ok command ∧
      commandQuery bareSerde (meCommand "/me?fields=name").tree = .ok query ∧
      command.kind = query.kind ∧ command.opcode = query.code ∧ command.denotes = query.body := by
  obtain ⟨command, query, hcommand, hquery, hiff⟩ := commands_agree_iff (fun _ => 0) bareSerde
    (meCommand "/me?fields=name") "t" "get" "/me?fields=name" rfl rfl rfl ⟨5, by decide +kernel⟩
      ⟨5, by decide +kernel⟩
  exact ⟨command, query, hcommand, hquery, hiff.mpr (by decide +kernel)⟩

/-- With an empty query the native client sends an empty object and the browser sends the query. -/
theorem empty_query_differs :
    (∃ command, commandJson (fun _ => 0) (meCommand "/me?").tree = .ok command ∧ command.kind = 3 ∧
      command.opcode = 5 ∧ command.denotes = .object []) ∧
    commandQuery bareSerde (meCommand "/me?").tree = .ok ⟨3, 5, .object [("query", .string "")]⟩ := by
  have hnative : nativeOperation (upper "get") (splitQuery "/me?").1 = .ok 5 := by decide +kernel
  have hbrowser : browserOperation (upper "get") (splitQuery "/me?").1 = .ok 5 := by decide +kernel
  have hget : upper "get" = "GET" := by decide +kernel
  have hquery : (splitQuery "/me?").2 = some "" := by decide +kernel
  constructor
  · obtain ⟨command, hcommand, hkind, hopcode, hdenotes⟩ :
        ∃ command, commandJson (fun _ => 0) (meCommand "/me?").tree = .ok command ∧
          command.kind = (if upper "get" = "GET" then kindQuery else kindCommand) ∧ command.opcode = 5 ∧
          command.denotes = nativePayload (meCommand "/me?").tree (upper "get") (splitQuery "/me?").2 :=
      commandJson_eq_ok (meCommand "/me?").maps rfl rfl rfl hnative
    rw [if_pos hget] at hkind
    rw [hget, hquery] at hdenotes
    exact ⟨command, hcommand, hkind, hopcode, hdenotes⟩
  · have hfield : ((meCommand "/me?").tree.get "method").bind Json.asStr = some "get" := rfl
    have hsent := commandQuery_eq_ok bareSerde hfield rfl hbrowser
    rw [if_pos hget, hget, hquery] at hsent
    exact hsent

end Mst5Client.CommandRouting
