import EveBox.Lib.Transition
import Mathlib.Data.List.AList
import Mathlib.Data.List.Nodup
import Mathlib.Data.Rat.Init
import Mathlib.Logic.Function.Basic

/-!
# Sessions

Reference: `src/server/session.rs`, `src/server/api/login.rs`, `SessionExtractor` of `src/server/main.rs`, and the
users and sessions of `src/sqlite/configdb.rs` with `resources/configdb/migrations`.

A handler is cut where it waits: at each statement of the database and each use of the cache. Between two such
points any other handler, the command line or a restart of the server may come. Of the database the constraints
of the migrations are taken, the foreign key included, which sqlx enforces.
-/

namespace EveBox.Server

/-! ## The tables -/

/-- What a column of type `STRING` keeps of a text: its affinity makes a number of a text that spells one.
`numeral` reads the number. -/
inductive StringCell (numeral : String → Option ℚ)
  | number (q : ℚ)
  | text (s : String) (h : numeral s = none)
deriving DecidableEq

namespace StringCell

variable {numeral : String → Option ℚ}

/-- The cell for a value, or for an operand that is compared with the column. -/
def ofString (numeral : String → Option ℚ) (s : String) : StringCell numeral :=
  match h : numeral s with
  | some q => .number q
  | none => .text s h

/-- `try_get::<String>`. -/
def getString : StringCell numeral → Option String
  | .number _ => none
  | .text s _ => some s

theorem ofString_of_none {s : String} (h : numeral s = none) : ofString numeral s = .text s h := by
  unfold ofString
  split
  · rename_i q hq
    rw [h] at hq
    cases hq
  · rfl

theorem ofString_eq_text {s t : String} {h : numeral t = none} : ofString numeral s = .text t h ↔ s = t := by
  constructor
  · intro heq
    unfold ofString at heq
    split at heq
    · cases heq
    · cases heq
      rfl
  · rintro rfl
    exact ofString_of_none h

/-- A cell that reads as `s` is the cell of `s`. -/
theorem eq_ofString {c : StringCell numeral} {s : String} (h : c.getString = some s) : c = ofString numeral s := by
  cases c with
  | number q => cases h
  | text t ht =>
      obtain rfl := Option.some.inj h
      exact (ofString_of_none ht).symm

/-- What the cell of a text reads as, if it does. -/
theorem getString_ofString {s t : String} (h : (ofString numeral s).getString = some t) : t = s := by
  unfold ofString at h
  split at h
  · cases h
  · exact (Option.some.inj h).symm

end StringCell

/-- What the server is run with: `bcrypt::verify`, and `authentication_required`. -/
structure AuthConfig where
  verify : String → String → Option Bool
  required : Bool

variable {numeral : String → Option ℚ}

/-- A row of `users`. -/
structure UserRow (numeral : String → Option ℚ) where
  uuid : StringCell numeral
  username : StringCell numeral
  /-- The hash; the system user has none. -/
  password : Option String
deriving DecidableEq

/-- A row of `sessions`. -/
structure SessionRow (numeral : String → Option ℚ) where
  token : StringCell numeral
  uuid : StringCell numeral
  expiresAt : ℤ
deriving DecidableEq

/-- The tables `users` and `sessions` of `ConfigDb`. -/
structure UserTables (numeral : String → Option ℚ) where
  users : List (UserRow numeral)
  sessions : List (SessionRow numeral)
  uuid_nodup : (users.map (·.uuid)).Nodup
  username_nodup : (users.map (·.username)).Nodup
  token_nodup : (sessions.map (·.token)).Nodup
  references : ∀ row ∈ sessions, row.uuid ∈ users.map (·.uuid)
deriving DecidableEq

/-- `User`. -/
structure User where
  uuid : String
  username : String
deriving DecidableEq, Repr

/-- The variants of `ConfigDbError` that a login meets. -/
inductive LoginError
  | usernameNotFound (username : String)
  | badPassword (username : String)
  | bcryptError
  | sqlxError
deriving DecidableEq, Repr

namespace UserTables

/-- `ConfigDb::get_user_by_username_password`. -/
def getUserByUsernamePassword (db : UserTables numeral) (cfg : AuthConfig) (username passwordIn : String) :
    Except LoginError User :=
  match db.users.find? fun row => row.username = .ofString numeral username with
  | none => .error (.usernameNotFound username)
  | some row =>
      match row.uuid.getString, row.username.getString with
      | some uuid, some username =>
          match cfg.verify passwordIn (row.password.getD "") with
          | some true => .ok ⟨uuid, username⟩
          | some false => .error (.badPassword username)
          | none => .error .bcryptError
      | _, _ => .error .sqlxError

/-- The row that the statement of `ConfigDb::get_user_by_session` finds. -/
def selectSession (db : UserTables numeral) (token : String) : Option (UserRow numeral × ℤ) :=
  (db.sessions.find? fun row => row.token = .ofString numeral token).bind fun row =>
    (db.users.find? fun user => user.uuid = row.uuid).map fun user => (user, row.expiresAt)

/-- What `ConfigDb::get_user_by_session` has read before it looks at the time. -/
def userBySession (db : UserTables numeral) (token : String) : Option (String × ℤ) :=
  (db.selectSession token).bind fun (user, expiresAt) =>
    match user.uuid.getString, user.username.getString with
    | some _, some username => some (username, expiresAt)
    | _, _ => none

theorem saveSession_token_nodup {db : UserTables numeral} {row : SessionRow numeral}
    (h : row.token ∉ db.sessions.map (·.token)) : ((db.sessions ++ [row]).map (·.token)).Nodup := by
  rw [List.map_append, List.map_singleton]
  exact List.nodup_append.2 ⟨db.token_nodup, List.nodup_singleton _, fun a ha b hb => by
    rintro rfl
    exact h (List.mem_singleton.1 hb ▸ ha)⟩

theorem saveSession_references {db : UserTables numeral} {row : SessionRow numeral} (h : row.uuid ∈ db.users.map (·.uuid)) :
    ∀ r ∈ db.sessions ++ [row], r.uuid ∈ db.users.map (·.uuid) := by
  intro r hr
  rcases List.mem_append.1 hr with hr | hr
  · exact db.references r hr
  · rw [List.mem_singleton.1 hr]
    exact h

/-- `ConfigDb::save_session`. -/
def saveSession (db : UserTables numeral) (row : SessionRow numeral) : Option (UserTables numeral) :=
  if h : row.token ∉ db.sessions.map (·.token) ∧ row.uuid ∈ db.users.map (·.uuid) then
    some { db with
      sessions := db.sessions ++ [row]
      token_nodup := saveSession_token_nodup h.1
      references := saveSession_references h.2 }
  else none

/-- `DELETE FROM sessions`, of the rows that `keep` does not hold of. -/
def deleteSessions (db : UserTables numeral) (keep : SessionRow numeral → Bool) : UserTables numeral where
  users := db.users
  sessions := db.sessions.filter keep
  uuid_nodup := db.uuid_nodup
  username_nodup := db.username_nodup
  token_nodup := db.token_nodup.sublist (List.filter_sublist.map _)
  references row hrow := db.references row (List.mem_of_mem_filter hrow)

/-- `ConfigDb::delete_session`. -/
def deleteSession (db : UserTables numeral) (token : String) : UserTables numeral :=
  db.deleteSessions fun row => row.token ≠ .ofString numeral token

/-- `ConfigDb::expire_sessions`. -/
def expireSessions (db : UserTables numeral) (now : ℤ) : UserTables numeral := db.deleteSessions fun row => ¬ row.expiresAt < now

theorem addUser_nodup {β : Type*} {f : UserRow numeral → β} {users : List (UserRow numeral)} {row : UserRow numeral}
    (hnodup : (users.map f).Nodup) (h : f row ∉ users.map f) : ((users ++ [row]).map f).Nodup := by
  rw [List.map_append, List.map_singleton]
  exact List.nodup_append.2 ⟨hnodup, List.nodup_singleton _, fun a ha b hb => by
    rintro rfl
    exact h (List.mem_singleton.1 hb ▸ ha)⟩

theorem addUser_references {db : UserTables numeral} {row : UserRow numeral} :
    ∀ r ∈ db.sessions, r.uuid ∈ (db.users ++ [row]).map (·.uuid) := by
  intro r hr
  rw [List.map_append]
  exact List.mem_append_left _ (db.references r hr)

/-- `ConfigDb::add_user`, of a row made from its arguments. -/
def addUser (db : UserTables numeral) (row : UserRow numeral) : Option (UserTables numeral) :=
  if h : row.uuid ∉ db.users.map (·.uuid) ∧ row.username ∉ db.users.map (·.username) then
    some { db with
      users := db.users ++ [row]
      uuid_nodup := addUser_nodup db.uuid_nodup h.1
      username_nodup := addUser_nodup db.username_nodup h.2
      references := addUser_references }
  else none

theorem removeUser_references {db : UserTables numeral} {username : StringCell numeral}
    (h : ∀ row ∈ db.sessions, ∀ user ∈ db.users, user.username = username → user.uuid ≠ row.uuid) :
    ∀ row ∈ db.sessions, row.uuid ∈ (db.users.filter fun user => user.username ≠ username).map (·.uuid) := by
  intro row hrow
  obtain ⟨user, huser, heq⟩ := List.mem_map.1 (db.references row hrow)
  refine List.mem_map.2 ⟨user, List.mem_filter.2 ⟨huser, ?_⟩, heq⟩
  exact decide_eq_true fun hname => h row hrow user huser hname heq

/-- `ConfigDb::remove_user`: a user with sessions is referred to, and stays. -/
def removeUser (db : UserTables numeral) (username : StringCell numeral) : Option (UserTables numeral) :=
  if h : ∀ row ∈ db.sessions, ∀ user ∈ db.users, user.username = username → user.uuid ≠ row.uuid then
    some { db with
      users := db.users.filter fun user => user.username ≠ username
      uuid_nodup := db.uuid_nodup.sublist (List.filter_sublist.map _)
      username_nodup := db.username_nodup.sublist (List.filter_sublist.map _)
      references := removeUser_references h }
  else none

/-- The row of the user `uuid` gets another hash. -/
def UserRow.setPassword (uuid : StringCell numeral) (hash : String) (row : UserRow numeral) : UserRow numeral :=
  if row.uuid = uuid then { row with password := some hash } else row

@[simp] theorem UserRow.setPassword_uuid (uuid : StringCell numeral) (hash : String) (row : UserRow numeral) :
    (UserRow.setPassword uuid hash row).uuid = row.uuid := by
  unfold UserRow.setPassword
  split <;> rfl

@[simp] theorem UserRow.setPassword_username (uuid : StringCell numeral) (hash : String) (row : UserRow numeral) :
    (UserRow.setPassword uuid hash row).username = row.username := by
  unfold UserRow.setPassword
  split <;> rfl

theorem map_uuid_setPassword (users : List (UserRow numeral)) (uuid : StringCell numeral) (hash : String) :
    (users.map (UserRow.setPassword uuid hash)).map (·.uuid) = users.map (·.uuid) := by
  simp [Function.comp_def]

theorem map_username_setPassword (users : List (UserRow numeral)) (uuid : StringCell numeral) (hash : String) :
    (users.map (UserRow.setPassword uuid hash)).map (·.username) = users.map (·.username) := by
  simp [Function.comp_def]

/-- `ConfigDb::update_password_by_id`. -/
def updatePasswordById (db : UserTables numeral) (uuid : StringCell numeral) (hash : String) : UserTables numeral where
  users := db.users.map (UserRow.setPassword uuid hash)
  sessions := db.sessions
  uuid_nodup := (map_uuid_setPassword db.users uuid hash).symm ▸ db.uuid_nodup
  username_nodup := (map_username_setPassword db.users uuid hash).symm ▸ db.username_nodup
  token_nodup := db.token_nodup
  references row hrow := (map_uuid_setPassword db.users uuid hash).symm ▸ db.references row hrow

end UserTables

/-! ## The cache -/

/-- `Session`. -/
structure Session where
  sessionId : Option String
  username : Option String
deriving DecidableEq, Repr

/-- `SessionStore`: the sessions that have been put, under their ids. -/
structure SessionStore where
  cache : AList fun _ : String => Session
  keyed : ∀ id session, cache.lookup id = some session → session.sessionId = some id

namespace SessionStore

/-- `SessionStore::new`. -/
def new : SessionStore := ⟨∅, fun _ _ h => by cases h⟩

/-- `SessionStore::get`. -/
def get (store : SessionStore) (id : String) : Option Session := store.cache.lookup id

theorem put_keyed (store : SessionStore) {id : String} {session : Session} (h : session.sessionId = some id) :
    ∀ id' session', (store.cache.insert id session).lookup id' = some session' → session'.sessionId = some id' := by
  intro id' session' hlookup
  rcases eq_or_ne id' id with rfl | hne
  · rw [AList.lookup_insert] at hlookup
    exact Option.some.inj hlookup ▸ h
  · rw [AList.lookup_insert_ne hne] at hlookup
    exact store.keyed id' session' hlookup

/-- `SessionStore::put`. With an id that is taken the session is put all the same, and the answer is an error. -/
def put (store : SessionStore) (session : Session) : Bool × SessionStore :=
  match h : session.sessionId with
  | some id => ((store.get id).isNone, ⟨store.cache.insert id session, store.put_keyed h⟩)
  | none => (true, store)

theorem delete_keyed (store : SessionStore) (id : String) :
    ∀ id' session, (store.cache.erase id).lookup id' = some session → session.sessionId = some id' := by
  intro id' session hlookup
  rcases eq_or_ne id' id with rfl | hne
  · rw [AList.lookup_erase] at hlookup
    cases hlookup
  · rw [AList.lookup_erase_ne hne] at hlookup
    exact store.keyed id' session hlookup

/-- `SessionStore::delete`; the answer is only logged. -/
def delete (store : SessionStore) (id : String) : SessionStore := ⟨store.cache.erase id, store.delete_keyed id⟩

@[simp] theorem get_new (id : String) : new.get id = none := rfl

@[simp] theorem get_put_self (store : SessionStore) (id : String) (username : Option String) :
    (store.put ⟨some id, username⟩).2.get id = some ⟨some id, username⟩ :=
  AList.lookup_insert store.cache

theorem get_put_ne {store : SessionStore} {id id' : String} (hne : id' ≠ id) (username : Option String) :
    (store.put ⟨some id, username⟩).2.get id' = store.get id' :=
  AList.lookup_insert_ne hne

@[simp] theorem get_delete_self (store : SessionStore) (id : String) : (store.delete id).get id = none :=
  AList.lookup_erase id store.cache

theorem get_delete_ne {store : SessionStore} {id id' : String} (hne : id' ≠ id) :
    (store.delete id).get id' = store.get id' :=
  AList.lookup_erase_ne hne

end SessionStore

/-! ## Requests -/

/-- The header `authorization`. -/
inductive Authorization
  | absent
  | malformed
  | basic (username password : String)
deriving DecidableEq, Repr

/-- What `SessionExtractor` reads of a request, and whether its handler is `logout`. -/
structure SessionRequest where
  sessionId : Option String
  authorization : Authorization
  remoteUser : Option String
  logout : Bool
deriving DecidableEq, Repr

/-- `LoginForm`. -/
structure LoginForm where
  username : Option String
  password : Option String
deriving DecidableEq, Repr

/-- How far a handler has come. -/
inductive AuthTask
  | login (form : LoginForm)
  /-- The password was right. -/
  | loginPut (user : User)
  /-- The session is in the cache. -/
  | loginSave (token : String) (user : User) (expiry : ℤ)
  | request (r : SessionRequest)
  /-- The session was not in the cache. -/
  | lookup (r : SessionRequest) (id : String)
  /-- The session was in the table. -/
  | found (r : SessionRequest) (id username : String) (expiresAt : ℤ)
  /-- It was, but its time has passed. -/
  | expiring (r : SessionRequest)
  | basic (r : SessionRequest) (username password : String)
  | logoutCache (id : String)
  | logoutTable (id : String)
deriving DecidableEq, Repr

/-- The answer to a login. -/
inductive LoginReply
  | ok
  | session (token : String)
  | unauthorized
  | internalServerError
  /-- `put(..).unwrap()`. -/
  | panicked
deriving DecidableEq, Repr

/-- What has happened. -/
inductive AuthEvent
  /-- A password of the user was right. -/
  | verified (username : String)
  /-- A login has made a session. -/
  | issued (token username : String)
  /-- A request has got its session. -/
  | accepted (r : SessionRequest) (session : Session)
  | refused (r : SessionRequest)
  | loginReplied (form : Option LoginForm) (reply : LoginReply)
  | loggedOut (id : String)
deriving DecidableEq, Repr

/-- What comes from outside in a step of a handler: whether the statement succeeds, the clock, and random bytes in
base64. -/
structure AuthInput where
  dbOk : Bool
  now : ℤ
  token : String
deriving DecidableEq, Repr

/-- The server, its database, and what has happened, the last first. -/
structure AuthState (numeral : String → Option ℚ) where
  db : UserTables numeral
  cache : SessionStore
  tasks : ℕ → Option AuthTask
  log : List AuthEvent

/-- `chrono::Duration::weeks(1)`, in seconds. -/
def sessionLifetime : ℤ := 604800

namespace AuthState

/-- A server that has just started. -/
def start (db : UserTables numeral) : AuthState numeral := ⟨db, .new, fun _ => none, []⟩

/-- The handler `i` goes on with `task`. -/
def run (s : AuthState numeral) (i : ℕ) (task : AuthTask) : AuthState numeral :=
  { s with tasks := Function.update s.tasks i (some task) }

/-- The handler `i` is done. -/
def finish (s : AuthState numeral) (i : ℕ) (e : AuthEvent) : AuthState numeral :=
  { s with tasks := Function.update s.tasks i none, log := e :: s.log }

/-- What has happened is noted. -/
def note (s : AuthState numeral) (e : AuthEvent) : AuthState numeral := { s with log := e :: s.log }

/-- The extractor returns `session`, and the handler begins. -/
def accept (s : AuthState numeral) (i : ℕ) (r : SessionRequest) (session : Session) : AuthState numeral :=
  match r.logout, session.sessionId with
  | true, some id => (s.note (.accepted r session)).run i (.logoutCache id)
  | _, _ => s.finish i (.accepted r session)

/-- The rest of the extractor, without a session of the cache or the table. -/
def authorize (s : AuthState numeral) (cfg : AuthConfig) (i : ℕ) (r : SessionRequest) : AuthState numeral :=
  match r.authorization with
  | .malformed => s.finish i (.refused r)
  | .basic username password =>
      if cfg.required then s.run i (.basic r username password)
      else s.accept i r ⟨none, r.remoteUser⟩
  | .absent => if cfg.required then s.finish i (.refused r) else s.accept i r ⟨none, r.remoteUser⟩

/-- `login::post`, up to the answer of `get_user_by_username_password`. -/
def login (s : AuthState numeral) (cfg : AuthConfig) (i : ℕ) (io : AuthInput) (form : LoginForm) : AuthState numeral :=
  if ¬ cfg.required then s.finish i (.loginReplied form .ok)
  else
    match form.username, form.password with
    | some username, some password =>
        if ¬ io.dbOk then s.finish i (.loginReplied form .internalServerError)
        else
          match s.db.getUserByUsernamePassword cfg username password with
          | .ok user => (s.note (.verified user.username)).run i (.loginPut user)
          | .error (.usernameNotFound _) | .error (.badPassword _) =>
              s.finish i (.loginReplied form .unauthorized)
          | .error _ => s.finish i (.loginReplied form .internalServerError)
    | _, _ => s.finish i (.loginReplied form .unauthorized)

/-- The session of a login is put into the cache. -/
def loginPut (s : AuthState numeral) (i : ℕ) (io : AuthInput) (user : User) : AuthState numeral :=
  match s.cache.put ⟨some io.token, some user.username⟩ with
  | (true, cache) =>
      (({ s with cache }).note (.issued io.token user.username)).run i
        (.loginSave io.token user (io.now + sessionLifetime))
  | (false, cache) =>
      (({ s with cache }).note (.issued io.token user.username)).finish i (.loginReplied none .panicked)

/-- `get_user_by_username_password` in the extractor, and what comes after it. -/
def basic (s : AuthState numeral) (cfg : AuthConfig) (i : ℕ) (io : AuthInput) (r : SessionRequest)
    (username password : String) : AuthState numeral :=
  if ¬ io.dbOk then s.finish i (.refused r)
  else
    match s.db.getUserByUsernamePassword cfg username password with
    | .ok user => (s.note (.verified user.username)).accept i r ⟨some io.token, some user.username⟩
    | .error _ => s.finish i (.refused r)

/-- The next step of the handler `i`. The base64 of 256 bytes ends in `=`, so that it spells no number. -/
def advance (s : AuthState numeral) (cfg : AuthConfig) (i : ℕ) (io : AuthInput) : AuthTask → Option (AuthState numeral)
  | .login form => some (s.login cfg i io form)
  | .loginPut user => if numeral io.token = none then some (s.loginPut i io user) else none
  | .loginSave token user expiry =>
      let db := if io.dbOk then s.db.saveSession ⟨.ofString numeral token, .ofString numeral user.uuid, expiry⟩ else none
      some (({ s with db := db.getD s.db }).finish i (.loginReplied none (.session token)))
  | .request r =>
      match r.sessionId with
      | none => some (s.authorize cfg i r)
      | some id =>
          match s.cache.get id with
          | some session => some (s.accept i r session)
          | none => some (s.run i (.lookup r id))
  | .lookup r id =>
      match if io.dbOk then s.db.userBySession id else none with
      | some (username, expiresAt) => some (s.run i (.found r id username expiresAt))
      | none => some (s.authorize cfg i r)
  | .found r id username expiresAt =>
      if io.now > expiresAt then some (s.run i (.expiring r))
      else if io.dbOk then
        let session : Session := ⟨some id, some username⟩
        some (({ s with cache := (s.cache.put session).2 }).accept i r session)
      else some (s.authorize cfg i r)
  | .expiring r =>
      some (({ s with db := if io.dbOk then s.db.expireSessions io.now else s.db }).authorize cfg i r)
  | .basic r username password => some (s.basic cfg i io r username password)
  | .logoutCache id => some (({ s with cache := s.cache.delete id }).run i (.logoutTable id))
  | .logoutTable id =>
      some (({ s with db := if io.dbOk then s.db.deleteSession id else s.db }).finish i (.loggedOut id))

end AuthState

/-- What can happen. -/
inductive AuthOp
  | login (i : ℕ) (form : LoginForm)
  | request (i : ℕ) (r : SessionRequest)
  | advance (i : ℕ) (io : AuthInput)
  /-- The client has gone, and the handler is dropped. -/
  | drop (i : ℕ)
  | addUser (uuid username hash : String)
  | removeUser (username : String)
  | updatePassword (uuid hash : String)
  /-- The server ends and is started again. -/
  | restart
deriving DecidableEq, Repr

namespace AuthState

/-- One step. -/
def step (cfg : AuthConfig) (s : AuthState numeral) : AuthOp → Option (AuthState numeral)
  | .login i form => if s.tasks i = none then some (s.run i (.login form)) else none
  | .request i r => if s.tasks i = none then some (s.run i (.request r)) else none
  | .advance i io => (s.tasks i).bind (s.advance cfg i io)
  | .drop i => some { s with tasks := Function.update s.tasks i none }
  | .addUser uuid username hash =>
      some { s with db := (s.db.addUser ⟨.ofString numeral uuid, .ofString numeral username, some hash⟩).getD s.db }
  | .removeUser username => some { s with db := (s.db.removeUser (.ofString numeral username)).getD s.db }
  | .updatePassword uuid hash => some { s with db := s.db.updatePasswordById (.ofString numeral uuid) hash }
  | .restart => some { s with cache := .new, tasks := fun _ => none }

end AuthState

end EveBox.Server
