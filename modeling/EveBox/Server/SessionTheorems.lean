import EveBox.Server.Session

/-!
# Who is let in

* `SoundInv.step` — the cache, the table and the handlers know only sessions that logins have made.
* `accepted_sound` — with authentication required, a request is let in on a password, on a session that a login
  of this run has issued, or on one that the table held at the start.
-/

namespace EveBox.Server

open Transition

variable {numeral : String → Option ℚ}

/-! ## The tables -/

namespace UserTables

/-- The session of `token` is in the table, and is one of the user `username`. -/
def Opens (db : UserTables numeral) (token username : String) : Prop :=
  ∃ expiresAt, db.userBySession token = some (username, expiresAt)

/-- The user of a row of `sessions` has the name `name`. -/
def Owner (db : UserTables numeral) (row : SessionRow numeral) (name : StringCell numeral) : Prop :=
  ∃ user ∈ db.users, user.uuid = row.uuid ∧ user.username = name

theorem getUserByUsernamePassword_ok {db : UserTables numeral} {cfg : AuthConfig} {username password : String}
    {user : User} (h : db.getUserByUsernamePassword cfg username password = .ok user) :
    user.username = username ∧
      ∃ row ∈ db.users, row.uuid.getString = some user.uuid ∧ row.username.getString = some username := by
  unfold getUserByUsernamePassword at h
  split at h
  · cases h
  · rename_i row hfind
    have hrow := List.mem_of_find?_eq_some hfind
    have hname : row.username = .ofString numeral username := by simpa using List.find?_some hfind
    split at h
    · rename_i uuid name huuid hget
      obtain rfl : name = username := StringCell.getString_ofString (hname ▸ hget)
      split at h
      · cases h
        exact ⟨rfl, row, hrow, huuid, hget⟩
      · cases h
      · cases h
    · cases h

theorem userBySession_eq_some {db : UserTables numeral} {token username : String} {expiresAt : ℤ}
    (h : db.userBySession token = some (username, expiresAt)) :
    ∃ row ∈ db.sessions, ∃ user ∈ db.users, row.token = .ofString numeral token ∧ user.uuid = row.uuid ∧
      row.expiresAt = expiresAt ∧ user.username.getString = some username ∧ user.uuid.getString.isSome := by
  unfold userBySession selectSession at h
  obtain ⟨⟨user, e⟩, hsel, h⟩ := Option.bind_eq_some_iff.1 h
  obtain ⟨row, hrow, hsel⟩ := Option.bind_eq_some_iff.1 hsel
  obtain ⟨user', huser, heq⟩ := Option.map_eq_some_iff.1 hsel
  cases heq
  have hreads : user.uuid.getString.isSome ∧ user.username.getString = some username ∧ row.expiresAt = expiresAt := by
    dsimp only at h
    split at h
    · rename_i huuid hname
      cases h
      exact ⟨huuid ▸ rfl, hname, rfl⟩
    · cases h
  refine ⟨row, List.mem_of_find?_eq_some hrow, user, List.mem_of_find?_eq_some huser, ?_, ?_, hreads.2.2, hreads.2.1,
    hreads.1⟩
  · simpa using List.find?_some hrow
  · simpa using List.find?_some huser

theorem find?_eq_of_nodup {α β : Type*} [DecidableEq β] {f : α → β} {l : List α} (hnodup : (l.map f).Nodup) {a : α}
    (ha : a ∈ l) {b : β} (hb : f a = b) : (l.find? fun x => f x = b) = some a := by
  induction l with
  | nil => cases ha
  | cons x l ih =>
      obtain ⟨hx, hl⟩ := List.nodup_cons.1 (List.map_cons ▸ hnodup)
      rcases List.mem_cons.1 ha with rfl | ha
      · exact List.find?_cons_of_pos (by simpa using hb)
      · rw [List.find?_cons_of_neg, ih hl ha]
        rintro heq
        refine hx (List.mem_map.2 ⟨a, ha, ?_⟩)
        rw [hb, of_decide_eq_true heq]

/-- What the statement finds is known by the rows. -/
theorem userBySession_of_mem {db : UserTables numeral} {token username : String} {row : SessionRow numeral}
    (hrow : row ∈ db.sessions) (htoken : row.token = .ofString numeral token) {user : UserRow numeral}
    (huser : user ∈ db.users) (huuid : user.uuid = row.uuid) (hreads : user.uuid.getString.isSome)
    (hname : user.username.getString = some username) :
    db.userBySession token = some (username, row.expiresAt) := by
  obtain ⟨uuid, hreads⟩ := Option.isSome_iff_exists.1 hreads
  unfold userBySession selectSession
  rw [find?_eq_of_nodup db.token_nodup hrow htoken, Option.bind_some,
    find?_eq_of_nodup db.uuid_nodup huser huuid, Option.map_some, Option.bind_some]
  simp only [hreads, hname]

/-- The owner is one. -/
theorem Owner.unique {db : UserTables numeral} {row : SessionRow numeral} {user : UserRow numeral}
    {name : StringCell numeral} (h : db.Owner row name) (huser : user ∈ db.users) (huuid : user.uuid = row.uuid) :
    user.username = name := by
  obtain ⟨owner, howner, hrow, rfl⟩ := h
  rw [List.inj_on_of_nodup_map db.uuid_nodup huser howner (huuid.trans hrow.symm)]

theorem saveSession_eq_some {db db' : UserTables numeral} {row : SessionRow numeral}
    (h : db.saveSession row = some db') :
    db'.users = db.users ∧ db'.sessions = db.sessions ++ [row] ∧ row.uuid ∈ db.users.map (·.uuid) := by
  unfold saveSession at h
  split at h
  · rename_i hrow
    cases h
    exact ⟨rfl, rfl, hrow.2⟩
  · cases h

theorem addUser_eq_some {db db' : UserTables numeral} {row : UserRow numeral} (h : db.addUser row = some db') :
    db'.users = db.users ++ [row] ∧ db'.sessions = db.sessions := by
  unfold addUser at h
  split at h
  · cases h
    exact ⟨rfl, rfl⟩
  · cases h

theorem removeUser_eq_some {db db' : UserTables numeral} {username : StringCell numeral}
    (h : db.removeUser username = some db') :
    db'.users = db.users.filter (fun user => user.username ≠ username) ∧ db'.sessions = db.sessions ∧
      ∀ row ∈ db.sessions, ∀ user ∈ db.users, user.username = username → user.uuid ≠ row.uuid := by
  unfold removeUser at h
  split at h
  · rename_i hfree
    cases h
    exact ⟨rfl, rfl, hfree⟩
  · cases h

end UserTables

/-! ## Who is let in -/

/-- What must have come before. -/
def Justified (db : UserTables numeral) (before : List AuthEvent) : AuthEvent → Prop
  | .issued _ username => .verified username ∈ before
  | .accepted r session =>
      (∃ id username, r.sessionId = some id ∧ session = ⟨some id, some username⟩ ∧
        (.issued id username ∈ before ∨ db.Opens id username)) ∨
      ∃ id username password, r.authorization = .basic username password ∧ session = ⟨some id, some username⟩ ∧
        before.head? = some (.verified username)
  | _ => True

/-- All that has happened is justified by what came before it. -/
def AllJustified (db : UserTables numeral) : List AuthEvent → Prop
  | [] => True
  | e :: before => Justified db before e ∧ AllJustified db before

theorem AllJustified.of_split {db : UserTables numeral} {after before : List AuthEvent} {e : AuthEvent}
    (h : AllJustified db (after ++ e :: before)) : Justified db before e := by
  induction after with
  | nil => exact h.1
  | cons a after ih => exact ih h.2

/-- A session that a login has issued, or that the table held at the start. -/
def Known (db₀ : UserTables numeral) (log : List AuthEvent) (token username : String) : Prop :=
  .issued token username ∈ log ∨ db₀.Opens token username

theorem Known.mono {db₀ : UserTables numeral} {log log' : List AuthEvent} {token username : String}
    (h : Known db₀ log token username) (hsub : log ⊆ log') : Known db₀ log' token username :=
  h.imp_left fun h => hsub h

/-- Where the row of a session is from: the start, or a login. -/
def RowKnown (db₀ : UserTables numeral) (log : List AuthEvent) (row : SessionRow numeral)
    (name : StringCell numeral) : Prop :=
  (row ∈ db₀.sessions ∧ db₀.Owner row name) ∨
    ∃ token username h h', row.token = .text token h ∧ name = .text username h' ∧ .issued token username ∈ log

theorem RowKnown.mono {db₀ : UserTables numeral} {log log' : List AuthEvent} {row : SessionRow numeral}
    {name : StringCell numeral} (h : RowKnown db₀ log row name) (hsub : log ⊆ log') :
    RowKnown db₀ log' row name :=
  h.imp_right fun ⟨token, username, h, h', htoken, hname, hmem⟩ => ⟨token, username, h, h', htoken, hname, hsub hmem⟩

/-- The user of a login under way. -/
def AuthTask.user : AuthTask → Option User
  | .loginPut user => some user
  | .loginSave _ user _ => some user
  | _ => none

/-- The uuid of `user` is a text, which no user of the table has under another name. -/
def UserTables.Names (db : UserTables numeral) (user : User) : Prop :=
  numeral user.uuid = none ∧
    ∀ row ∈ db.users, row.uuid.getString = some user.uuid → row.username.getString = some user.username

/-- What a handler under way has learnt. -/
def TaskJustified (db₀ db : UserTables numeral) (log : List AuthEvent) : AuthTask → Prop
  | .loginPut user => .verified user.username ∈ log ∧ db.Names user
  | .loginSave token user _ => .issued token user.username ∈ log ∧ db.Names user ∧ numeral token = none
  | .lookup r id => r.sessionId = some id
  | .found r id username _ => r.sessionId = some id ∧ Known db₀ log id username
  | .basic r username password => r.authorization = .basic username password
  | _ => True

theorem TaskJustified.mono {db₀ db : UserTables numeral} {log log' : List AuthEvent} {task : AuthTask}
    (h : TaskJustified db₀ db log task) (hsub : log ⊆ log') : TaskJustified db₀ db log' task := by
  cases task with
  | loginPut user => exact ⟨hsub h.1, h.2⟩
  | loginSave token user expiry => exact ⟨hsub h.1, h.2⟩
  | lookup r id => exact h
  | found r id username expiresAt => exact ⟨h.1, h.2.mono hsub⟩
  | basic r username password => exact h
  | _ => trivial

/-- What a handler has learnt is as true of other tables, if the users that are logging in keep their names. -/
theorem TaskJustified.of_names {db₀ db db' : UserTables numeral} {log : List AuthEvent} {task : AuthTask}
    (h : TaskJustified db₀ db log task) (hnames : ∀ user, task.user = some user → db.Names user → db'.Names user) :
    TaskJustified db₀ db' log task := by
  cases task with
  | loginPut user => exact ⟨h.1, hnames user rfl h.2⟩
  | loginSave token user expiry => exact ⟨h.1, hnames user rfl h.2.1, h.2.2⟩
  | lookup r id => exact h
  | found r id username expiresAt => exact h
  | basic r username password => exact h
  | _ => trivial

/-- What holds in every state: the cache, the table and the handlers know only sessions that are known. -/
structure SoundInv (db₀ : UserTables numeral) (s : AuthState numeral) : Prop where
  cache : ∀ id session, s.cache.get id = some session →
    ∃ username, session = ⟨some id, some username⟩ ∧ Known db₀ s.log id username
  rows : ∀ row ∈ s.db.sessions, ∃ name, s.db.Owner row name ∧ RowKnown db₀ s.log row name
  tasks : ∀ i task, s.tasks i = some task → TaskJustified db₀ s.db s.log task
  log : AllJustified db₀ s.log

namespace SoundInv

variable {db₀ : UserTables numeral} {s : AuthState numeral} {cfg : AuthConfig}

theorem start (db₀ : UserTables numeral) : SoundInv db₀ (.start db₀) where
  cache id session h := by cases h
  rows row hrow := by
    obtain ⟨user, huser, huuid⟩ := List.mem_map.1 (db₀.references row hrow)
    exact ⟨user.username, ⟨user, huser, huuid, rfl⟩, .inl ⟨hrow, user, huser, huuid, rfl⟩⟩
  tasks i task h := by cases h
  log := trivial

theorem note (inv : SoundInv db₀ s) {e : AuthEvent} (he : Justified db₀ s.log e) : SoundInv db₀ (s.note e) where
  cache id session h := by
    obtain ⟨username, heq, hknown⟩ := inv.cache id session h
    exact ⟨username, heq, hknown.mono (List.subset_cons_self _ _)⟩
  rows row hrow := by
    obtain ⟨name, howner, hknown⟩ := inv.rows row hrow
    exact ⟨name, howner, hknown.mono (List.subset_cons_self _ _)⟩
  tasks i task h := (inv.tasks i task h).mono (List.subset_cons_self _ _)
  log := ⟨he, inv.log⟩

theorem run (inv : SoundInv db₀ s) (i : ℕ) {task : AuthTask} (htask : TaskJustified db₀ s.db s.log task) :
    SoundInv db₀ (s.run i task) where
  cache := inv.cache
  rows := inv.rows
  tasks j task' h := by
    simp only [AuthState.run, Function.update_apply] at h
    split at h
    · obtain rfl := Option.some.inj h
      exact htask
    · exact inv.tasks j task' h
  log := inv.log

/-- Handlers may end at any time. -/
theorem ended (inv : SoundInv db₀ s) (tasks : ℕ → Option AuthTask)
    (h : ∀ i task, tasks i = some task → s.tasks i = some task) : SoundInv db₀ { s with tasks } where
  cache := inv.cache
  rows := inv.rows
  tasks i task htask := inv.tasks i task (h i task htask)
  log := inv.log

theorem finish (inv : SoundInv db₀ s) (i : ℕ) {e : AuthEvent} (he : Justified db₀ s.log e) :
    SoundInv db₀ (s.finish i e) := by
  refine (inv.note he).ended (Function.update s.tasks i none) fun j task h => ?_
  simp only [Function.update_apply] at h
  split at h
  · cases h
  · exact h

theorem accept (inv : SoundInv db₀ s) (i : ℕ) {r : SessionRequest} {session : Session}
    (he : Justified db₀ s.log (.accepted r session)) : SoundInv db₀ (s.accept i r session) := by
  unfold AuthState.accept
  split
  · exact (inv.note he).run i trivial
  · exact inv.finish i he

theorem authorize (inv : SoundInv db₀ s) (hreq : cfg.required = true) (i : ℕ) (r : SessionRequest) :
    SoundInv db₀ (s.authorize cfg i r) := by
  unfold AuthState.authorize
  split
  · exact inv.finish i trivial
  · rename_i username password hbasic
    rw [if_pos hreq]
    exact inv.run i hbasic
  · rw [if_pos hreq]
    exact inv.finish i trivial

/-- Other tables, whose rows are known and in which the users that are logging in keep their names. -/
theorem withDb (inv : SoundInv db₀ s) {db : UserTables numeral}
    (hrows : ∀ row ∈ db.sessions, ∃ name, db.Owner row name ∧ RowKnown db₀ s.log row name)
    (hnames : ∀ i task user, s.tasks i = some task → task.user = some user → s.db.Names user → db.Names user) :
    SoundInv db₀ { s with db } where
  cache := inv.cache
  rows := hrows
  tasks i task h := (inv.tasks i task h).of_names fun user => hnames i task user h
  log := inv.log

/-- One session more in the cache. -/
theorem put (inv : SoundInv db₀ s) {id username : String} (h : Known db₀ s.log id username) :
    SoundInv db₀ { s with cache := (s.cache.put ⟨some id, some username⟩).2 } where
  cache id' session hget := by
    rcases eq_or_ne id' id with rfl | hne
    · rw [SessionStore.get_put_self] at hget
      exact ⟨username, (Option.some.inj hget).symm, h⟩
    · rw [SessionStore.get_put_ne hne] at hget
      exact inv.cache id' session hget
  rows := inv.rows
  tasks := inv.tasks
  log := inv.log

theorem addUser (inv : SoundInv db₀ s) {uuid username hash : String}
    (hfresh : ∀ i task user, s.tasks i = some task → task.user = some user → user.uuid ≠ uuid) :
    SoundInv db₀ { s with db := (s.db.addUser ⟨.ofString numeral uuid, .ofString numeral username, some hash⟩).getD s.db } := by
  cases hadd : s.db.addUser ⟨.ofString numeral uuid, .ofString numeral username, some hash⟩ with
  | none => exact inv
  | some db =>
      obtain ⟨husers, hsessions⟩ := UserTables.addUser_eq_some hadd
      refine inv.withDb (fun row hrow => ?_) (fun i task user htask huser hnames => ⟨hnames.1, fun row hrow huuid => ?_⟩)
      · obtain ⟨name, ⟨user, huser, howner⟩, hknown⟩ := inv.rows row (hsessions ▸ hrow)
        exact ⟨name, ⟨user, husers ▸ List.mem_append_left _ huser, howner⟩, hknown⟩
      · rcases List.mem_append.1 (husers ▸ hrow) with hrow | hrow
        · exact hnames.2 row hrow huuid
        · rw [List.mem_singleton.1 hrow] at huuid
          exact absurd (StringCell.getString_ofString huuid) (hfresh i task user htask huser)

theorem removeUser (inv : SoundInv db₀ s) (username : StringCell numeral) :
    SoundInv db₀ { s with db := (s.db.removeUser username).getD s.db } := by
  cases hremove : s.db.removeUser username with
  | none => exact inv
  | some db =>
      obtain ⟨husers, hsessions, hfree⟩ := UserTables.removeUser_eq_some hremove
      refine inv.withDb (fun row hrow => ?_) (fun i task user htask huser hnames => ⟨hnames.1, fun row hrow => ?_⟩)
      · replace hrow : row ∈ s.db.sessions := hsessions ▸ hrow
        obtain ⟨name, ⟨user, huser, huuid, hname⟩, hknown⟩ := inv.rows row hrow
        refine ⟨name, ⟨user, husers ▸ List.mem_filter.2 ⟨huser, ?_⟩, huuid, hname⟩, hknown⟩
        exact decide_eq_true fun h => hfree row hrow user huser h huuid
      · exact hnames.2 row (List.mem_of_mem_filter (husers ▸ hrow))

theorem updatePassword (inv : SoundInv db₀ s) (uuid : StringCell numeral) (hash : String) :
    SoundInv db₀ { s with db := s.db.updatePasswordById uuid hash } := by
  refine inv.withDb (fun row hrow => ?_) (fun i task user htask huser hnames => ⟨hnames.1, fun row hrow huuid => ?_⟩)
  · obtain ⟨name, ⟨user, huser, hrow, hname⟩, hknown⟩ := inv.rows row hrow
    refine ⟨name, ⟨_, List.mem_map_of_mem huser, ?_, ?_⟩, hknown⟩
    · rw [UserTables.UserRow.setPassword_uuid, hrow]
    · rw [UserTables.UserRow.setPassword_username, hname]
  · obtain ⟨row', hrow', rfl⟩ := List.mem_map.1 hrow
    rw [UserTables.UserRow.setPassword_uuid] at huuid
    rw [UserTables.UserRow.setPassword_username]
    exact hnames.2 row' hrow' huuid

theorem deleteSessions (inv : SoundInv db₀ s) (keep : SessionRow numeral → Bool) :
    SoundInv db₀ { s with db := s.db.deleteSessions keep } :=
  inv.withDb (fun row hrow => inv.rows row (List.mem_of_mem_filter hrow)) fun _ _ _ _ _ h => h

theorem saveSession (inv : SoundInv db₀ s) {token : String} {user : User} {expiry : ℤ}
    (h : TaskJustified db₀ s.db s.log (.loginSave token user expiry)) {db : UserTables numeral}
    (hsave : s.db.saveSession ⟨.ofString numeral token, .ofString numeral user.uuid, expiry⟩ = some db) :
    SoundInv db₀ { s with db } := by
  obtain ⟨hissued, ⟨huuid, hnames⟩, htoken⟩ := h
  obtain ⟨husers, hsessions, hmem⟩ := UserTables.saveSession_eq_some hsave
  refine inv.withDb (fun row hrow => ?_) (fun i task user' htask huser' h => ?_)
  · unfold UserTables.Owner
    rw [husers]
    rcases List.mem_append.1 (hsessions ▸ hrow) with hrow | hrow
    · exact inv.rows row hrow
    · obtain rfl := List.mem_singleton.1 hrow
      obtain ⟨owner, howner, heq⟩ := List.mem_map.1 hmem
      have hname : owner.username.getString = some user.username := by
        refine hnames owner howner ?_
        rw [heq, StringCell.ofString_of_none huuid]
        rfl
      refine ⟨owner.username, ⟨owner, howner, heq, rfl⟩, .inr ?_⟩
      cases hcell : owner.username with
      | number q =>
          rw [hcell] at hname
          cases hname
      | text name hnone =>
          rw [hcell] at hname
          obtain rfl := Option.some.inj hname
          exact ⟨token, _, htoken, hnone, StringCell.ofString_of_none htoken, rfl, hissued⟩
  · unfold UserTables.Names
    rw [husers]
    exact h

/-- What the table is asked for is known. -/
theorem known_of_userBySession (inv : SoundInv db₀ s) {token username : String} {expiresAt : ℤ}
    (h : s.db.userBySession token = some (username, expiresAt)) : Known db₀ s.log token username := by
  obtain ⟨row, hrow, user, huser, htoken, huuid, hexpires, hname, hreads⟩ := UserTables.userBySession_eq_some h
  obtain ⟨name, howner, hknown⟩ := inv.rows row hrow
  obtain rfl : user.username = name := howner.unique huser huuid
  rcases hknown with ⟨hrow₀, user₀, huser₀, huuid₀, hname₀⟩ | ⟨t, u, ht, hu, htoken', hname', hissued⟩
  · refine .inr ⟨row.expiresAt, UserTables.userBySession_of_mem hrow₀ htoken huser₀ huuid₀ ?_ (hname₀ ▸ hname)⟩
    rw [huuid₀, ← huuid]
    exact hreads
  · obtain rfl : token = t := StringCell.ofString_eq_text.1 (htoken.symm.trans htoken')
    rw [hname'] at hname
    obtain rfl := Option.some.inj hname
    exact .inl hissued

/-- Who is logging in is known by a row of the table. -/
theorem names_of_ok {username password : String} {user : User}
    (h : s.db.getUserByUsernamePassword cfg username password = .ok user) : s.db.Names user := by
  obtain ⟨rfl, row, hrow, huuid, hname⟩ := UserTables.getUserByUsernamePassword_ok h
  refine ⟨?_, fun row' hrow' huuid' => ?_⟩
  · cases hcell : row.uuid with
    | number q =>
        rw [hcell] at huuid
        cases huuid
    | text t ht =>
        rw [hcell] at huuid
        exact Option.some.inj huuid ▸ ht
  · have hsame : row'.uuid = row.uuid := (StringCell.eq_ofString huuid').trans (StringCell.eq_ofString huuid).symm
    rw [List.inj_on_of_nodup_map s.db.uuid_nodup hrow' hrow hsame]
    exact hname

theorem login (inv : SoundInv db₀ s) (i : ℕ) (io : AuthInput) (form : LoginForm) :
    SoundInv db₀ (s.login cfg i io form) := by
  unfold AuthState.login
  split
  · exact inv.finish i trivial
  · split
    · split
      · exact inv.finish i trivial
      · split
        · rename_i user hok
          exact (inv.note (e := .verified user.username) trivial).run i ⟨List.mem_cons_self, names_of_ok hok⟩
        · exact inv.finish i trivial
        · exact inv.finish i trivial
        · exact inv.finish i trivial
    · exact inv.finish i trivial

theorem loginPut (inv : SoundInv db₀ s) (i : ℕ) {io : AuthInput} {user : User} (hnumeral : numeral io.token = none)
    (h : TaskJustified db₀ s.db s.log (.loginPut user)) : SoundInv db₀ (s.loginPut i io user) := by
  have hissued : SoundInv db₀ ((({ s with cache := (s.cache.put ⟨some io.token, some user.username⟩).2 }) :
      AuthState numeral).note (.issued io.token user.username)) := by
    have hnote := inv.note (e := .issued io.token user.username) h.1
    exact hnote.put (.inl List.mem_cons_self)
  unfold AuthState.loginPut
  split
  · rename_i cache heq
    rw [heq] at hissued
    exact hissued.run i ⟨List.mem_cons_self, h.2, hnumeral⟩
  · rename_i cache heq
    rw [heq] at hissued
    exact hissued.finish i trivial

theorem basic (inv : SoundInv db₀ s) (i : ℕ) (io : AuthInput) {r : SessionRequest} {username password : String}
    (h : r.authorization = .basic username password) : SoundInv db₀ (s.basic cfg i io r username password) := by
  unfold AuthState.basic
  split
  · exact inv.finish i trivial
  · split
    · rename_i user hok
      obtain ⟨rfl, -⟩ := UserTables.getUserByUsernamePassword_ok hok
      exact (inv.note (e := .verified user.username) trivial).accept i (.inr ⟨io.token, user.username, password, h, rfl, rfl⟩)
    · exact inv.finish i trivial

/-- The handlers keep it. -/
theorem advance (inv : SoundInv db₀ s) (hreq : cfg.required = true) {i : ℕ} {io : AuthInput} {task : AuthTask}
    {s' : AuthState numeral} (htask : s.tasks i = some task) (h : s.advance cfg i io task = some s') :
    SoundInv db₀ s' := by
  have hlearnt := inv.tasks i task htask
  cases task with
  | login form =>
      obtain rfl := Option.some.inj h
      exact inv.login i io form
  | loginPut user =>
      simp only [AuthState.advance] at h
      split at h
      · rename_i hnumeral
        obtain rfl := Option.some.inj h
        exact inv.loginPut i hnumeral hlearnt
      · cases h
  | loginSave token user expiry =>
      obtain rfl := Option.some.inj h
      refine SoundInv.finish ?_ i trivial
      cases hsave : if io.dbOk then
          s.db.saveSession ⟨.ofString numeral token, .ofString numeral user.uuid, expiry⟩ else none with
      | none => exact inv
      | some db =>
          split at hsave
          · exact inv.saveSession hlearnt hsave
          · cases hsave
  | request r =>
      simp only [AuthState.advance] at h
      split at h
      · obtain rfl := Option.some.inj h
        exact inv.authorize hreq i r
      · rename_i id hid
        split at h
        · rename_i session hget
          obtain rfl := Option.some.inj h
          obtain ⟨username, rfl, hknown⟩ := inv.cache id session hget
          exact inv.accept i (.inl ⟨id, username, hid, rfl, hknown⟩)
        · obtain rfl := Option.some.inj h
          exact inv.run i hid
  | lookup r id =>
      simp only [AuthState.advance] at h
      split at h
      · rename_i username expiresAt hfound
        obtain rfl := Option.some.inj h
        split at hfound
        · exact inv.run i ⟨hlearnt, inv.known_of_userBySession hfound⟩
        · cases hfound
      · obtain rfl := Option.some.inj h
        exact inv.authorize hreq i r
  | found r id username expiresAt =>
      simp only [AuthState.advance] at h
      split at h
      · obtain rfl := Option.some.inj h
        exact inv.run i trivial
      · split at h
        · obtain rfl := Option.some.inj h
          exact (inv.put hlearnt.2).accept i (.inl ⟨id, username, hlearnt.1, rfl, hlearnt.2⟩)
        · obtain rfl := Option.some.inj h
          exact inv.authorize hreq i r
  | expiring r =>
      obtain rfl := Option.some.inj h
      refine SoundInv.authorize ?_ hreq i r
      split
      · exact inv.deleteSessions _
      · exact inv
  | basic r username password =>
      obtain rfl := Option.some.inj h
      exact inv.basic i io hlearnt
  | logoutCache id =>
      obtain rfl := Option.some.inj h
      refine SoundInv.run ?_ i trivial
      refine { inv with cache := fun id' session hget => ?_ }
      rcases eq_or_ne id' id with rfl | hne
      · rw [SessionStore.get_delete_self] at hget
        cases hget
      · rw [SessionStore.get_delete_ne hne] at hget
        exact inv.cache id' session hget
  | logoutTable id =>
      obtain rfl := Option.some.inj h
      refine SoundInv.finish ?_ i trivial
      split
      · exact inv.deleteSessions _
      · exact inv

end SoundInv

/-- A new user gets a uuid that no user who is logging in has. -/
def NewUuid (s : AuthState numeral) : AuthOp → Prop
  | .addUser uuid _ _ => ∀ i task user, s.tasks i = some task → task.user = some user → user.uuid ≠ uuid
  | _ => True

theorem SoundInv.step {db₀ : UserTables numeral} {cfg : AuthConfig} (hreq : cfg.required = true)
    {s s' : AuthState numeral} {a : AuthOp} (inv : SoundInv db₀ s) (hnew : NewUuid s a)
    (h : AuthState.step cfg s a = some s') : SoundInv db₀ s' := by
  cases a with
  | login i form =>
      simp only [AuthState.step] at h
      split at h
      · obtain rfl := Option.some.inj h
        exact inv.run i trivial
      · cases h
  | request i r =>
      simp only [AuthState.step] at h
      split at h
      · obtain rfl := Option.some.inj h
        exact inv.run i trivial
      · cases h
  | advance i io =>
      obtain ⟨task, htask, h⟩ := Option.bind_eq_some_iff.1 h
      exact inv.advance hreq htask h
  | drop i =>
      obtain rfl := Option.some.inj h
      refine inv.ended (Function.update s.tasks i none) fun j task hj => ?_
      simp only [Function.update_apply] at hj
      split at hj
      · cases hj
      · exact hj
  | addUser uuid username hash =>
      obtain rfl := Option.some.inj h
      exact inv.addUser hnew
  | removeUser username =>
      obtain rfl := Option.some.inj h
      exact inv.removeUser _
  | updatePassword uuid hash =>
      obtain rfl := Option.some.inj h
      exact inv.updatePassword _ hash
  | restart =>
      obtain rfl := Option.some.inj h
      have hended := inv.ended (fun _ => none) fun _ _ h => by cases h
      exact { hended with cache := fun _ _ h => by cases h }

/-- With authentication required, a request that is let in has the session of a login of its user, of this run or
from before the start, or gives the password of its user, which was right just then; and a login that issues a
session was given the password of its user before. -/
theorem accepted_sound {cfg : AuthConfig} (hreq : cfg.required = true) {db₀ : UserTables numeral} {as : List AuthOp}
    {s : AuthState numeral} (hnew : Along (AuthState.step cfg) NewUuid (.start db₀) as)
    (h : exec (AuthState.step cfg) (.start db₀) as = some s) {after before : List AuthEvent} {e : AuthEvent}
    (hlog : s.log = after ++ e :: before) : Justified db₀ before e :=
  have inv : SoundInv db₀ s :=
    invariant_along (fun _ _ _ inv hnew h => SoundInv.step hreq inv hnew h) (.start db₀) hnew h
  (hlog ▸ inv.log).of_split

/-! ## A login -/

/-- No text of the run spells a number. -/
def noNumerals (_ : String) : Option ℚ := none

/-- Passwords are kept as they are. -/
def plainConfig : AuthConfig := ⟨fun password hash => some (password = hash), true⟩

/-- The tables of a server with one user. -/
def oneUser : UserTables noNumerals where
  users := [⟨.ofString _ "7d44", .ofString _ "admin", some "secret"⟩]
  sessions := []
  uuid_nodup := by decide
  username_nodup := by decide
  token_nodup := by decide
  references := by decide

def sessionInput : AuthInput := ⟨true, 1700000000, "c2Vzc2lvbg=="⟩

def sessionRequest (logout : Bool) : SessionRequest := ⟨some "c2Vzc2lvbg==", .absent, none, logout⟩

/-- A login, and a request with its session. -/
def loginRun : List AuthOp :=
  [.login 0 ⟨some "admin", some "secret"⟩, .advance 0 sessionInput, .advance 0 sessionInput,
    .advance 0 sessionInput, .request 1 (sessionRequest false), .advance 1 sessionInput]

theorem accepted_sound_loginRun :
    ∃ s, exec (AuthState.step plainConfig) (.start oneUser) loginRun = some s ∧
      ∃ before, s.log = .accepted (sessionRequest false) ⟨some "c2Vzc2lvbg==", some "admin"⟩ :: before ∧
        Justified oneUser before (.accepted (sessionRequest false) ⟨some "c2Vzc2lvbg==", some "admin"⟩) := by
  have hlog : (exec (AuthState.step plainConfig) (.start oneUser) loginRun).map (·.log) =
      some [.accepted (sessionRequest false) ⟨some "c2Vzc2lvbg==", some "admin"⟩,
        .loginReplied none (.session "c2Vzc2lvbg=="), .issued "c2Vzc2lvbg==" "admin", .verified "admin"] := by
    decide +kernel
  obtain ⟨s, hs, hlog⟩ := Option.map_eq_some_iff.1 hlog
  refine ⟨s, hs, _, hlog, accepted_sound rfl ?_ hs (hlog.trans (List.nil_append _).symm)⟩
  exact ⟨trivial, fun _ _ => ⟨trivial, fun _ _ => ⟨trivial, fun _ _ => ⟨trivial, fun _ _ => ⟨trivial, fun _ _ =>
    ⟨trivial, fun _ _ => trivial⟩⟩⟩⟩⟩⟩

end EveBox.Server
