import Codexwatch.Capture.Http1
import Codexwatch.Protocol.Codec
import Codexwatch.Server.Schema

/-!
# Access tokens

The table `api_tokens` and its statements. A token is known by its digest alone, and a
request is authorised by the row of that digest. Tokens are issued and revoked by the
administrator's commands; no request to the server writes the table.

`authorize_eq` says what the rows amount to: a token is good for what it was last issued
for, unless it was revoked since.

## Main definitions

* `issueToken`, `revokeToken` — the commands.
* `authorize` — the principal of a request, from its headers.
* `granted` — what the history of the commands says about a digest.
-/
namespace Codexwatch.Server

open Protocol Relational Check Capture

structure TokenRow where
  clientId : String
  role : String
  createdAtMs : TimestampMs
  revokedAtMs : Option TimestampMs
  deriving DecidableEq

def TokenRole.asStr : TokenRole → String
  | .client => "client"
  | .reader => "reader"
  | .admin => "admin"

def TokenRole.fromDb (value : String) : Option TokenRole :=
  if value = "client" then some .client
  else if value = "reader" then some .reader
  else if value = "admin" then some .admin
  else none

@[simp] theorem TokenRole.fromDb_asStr (role : TokenRole) : fromDb role.asStr = some role := by
  cases role <;> rfl

/-- The answer to a request that is not handled: `401`, or the status of a check. -/
inductive Refusal
  | unauthorized
  | status (code : StatusCode)
  deriving DecidableEq

section Tokens
variable (codec : Codec)

def hashToken (token : String) : String := codec.sha256Hex (textBytes token)

/-- Whatever the digest was issued for before, it is good again, for this. -/
def upsertToken (apiTokens : Table String TokenRow) (clientId token : String) (role : TokenRole)
    (now : TimestampMs) : Table String TokenRow :=
  apiTokens.upsert (hashToken codec token) ⟨clientId, role.asStr, now, none⟩ fun old =>
    { old with clientId, role := role.asStr, revokedAtMs := none }

/-- The role that the options `--role` and `--admin` stand for. -/
def issuedRole (role : Option TokenRole) (admin : Bool) : TokenRole :=
  if admin then .admin else role.getD .client

def revokeToken (apiTokens : Table String TokenRow) (token : String) (now : TimestampMs) :
    Table String TokenRow :=
  apiTokens.modify (hashToken codec token) fun row => { row with revokedAtMs := some now }

/-- The token that the headers carry. -/
def bearerToken (headers : HeaderMap) : Option String :=
  ((headers.get "authorization").bind toStr).bind (Text.stripPrefix "Bearer ")

def authorize (apiTokens : Table String TokenRow) (headers : HeaderMap) :
    Except Refusal Principal := do
  let token ← required (bearerToken headers) .unauthorized
  let row ← required
    ((apiTokens.get? (hashToken codec token)).filter fun row => row.revokedAtMs = none)
    .unauthorized
  let role ← required (TokenRole.fromDb row.role) (.status .forbidden)
  pure ⟨row.clientId, role⟩

end Tokens

/-! ## What a history grants -/

/-- A command about tokens. -/
inductive TokenCommand
  | issue (clientId token : String) (role : Option TokenRole) (admin : Bool) (now : TimestampMs)
  | revoke (token : String) (now : TimestampMs)
  deriving DecidableEq

def TokenCommand.apply (codec : Codec) (apiTokens : Table String TokenRow) :
    TokenCommand → Table String TokenRow
  | .issue clientId token role admin now =>
      upsertToken codec apiTokens clientId token (issuedRole role admin) now
  | .revoke token now => revokeToken codec apiTokens token now

/-- What the command says about the digest: a principal, none, or nothing at all. -/
def TokenCommand.verdict (codec : Codec) (hash : String) :
    TokenCommand → Option (Option Principal)
  | .issue clientId token role admin _ =>
      if hashToken codec token = hash then some (some ⟨clientId, issuedRole role admin⟩) else none
  | .revoke token _ => if hashToken codec token = hash then some none else none

/-- The last command about the digest decides. -/
def granted (codec : Codec) (history : List TokenCommand) (hash : String) : Option Principal :=
  (history.reverse.findSome? (TokenCommand.verdict codec hash)).join

/-- The principal that the headers are good for. -/
def grantedTo (codec : Codec) (history : List TokenCommand) (headers : HeaderMap) :
    Option Principal :=
  (bearerToken headers).bind fun token => granted codec history (hashToken codec token)

section Grants
variable {codec : Codec} {history : List TokenCommand} {hash : String}

@[simp] theorem granted_nil : granted codec [] hash = none := rfl

theorem granted_snoc (command : TokenCommand) :
    granted codec (history ++ [command]) hash =
      (command.verdict codec hash).elim (granted codec history hash) id := by
  rw [granted, granted, List.reverse_append, List.reverse_singleton, List.singleton_append,
    List.findSome?_cons]
  cases command.verdict codec hash <;> rfl

/-- What the rows of the table say. -/
def Represents (codec : Codec) (history : List TokenCommand) (apiTokens : Table String TokenRow) :
    Prop :=
  ∀ hash, granted codec history hash =
    ((apiTokens.get? hash).filter fun row => row.revokedAtMs = none).bind fun row =>
      (TokenRole.fromDb row.role).map fun role => ⟨row.clientId, role⟩

/-- Every stored role is the text of a role. -/
def RolesKnown (apiTokens : Table String TokenRow) : Prop :=
  ∀ hash row, apiTokens.get? hash = some row → ∃ role : TokenRole, row.role = role.asStr

variable {apiTokens : Table String TokenRow}

theorem Represents.apply (h : Represents codec history apiTokens) (command : TokenCommand) :
    Represents codec (history ++ [command]) (command.apply codec apiTokens) := by
  intro hash
  rw [granted_snoc]
  cases command with
  | issue clientId token role admin now =>
      simp only [TokenCommand.verdict, TokenCommand.apply, upsertToken, Table.get?_upsert]
      by_cases hhash : hashToken codec token = hash
      · subst hhash
        cases apiTokens.get? (hashToken codec token) <;> simp [Option.filter]
      · rw [if_neg hhash, if_neg (Ne.symm hhash), Option.elim_none, h hash]
  | revoke token now =>
      simp only [TokenCommand.verdict, TokenCommand.apply, revokeToken, Table.get?_modify]
      by_cases hhash : hashToken codec token = hash
      · subst hhash
        cases apiTokens.get? (hashToken codec token) <;> simp [Option.filter]
      · rw [if_neg hhash, if_neg (Ne.symm hhash), Option.elim_none, h hash]

theorem RolesKnown.apply (h : RolesKnown apiTokens) (command : TokenCommand) :
    RolesKnown (command.apply codec apiTokens) := by
  intro hash row hrow
  cases command with
  | issue clientId token role admin now =>
      rw [TokenCommand.apply, upsertToken, Table.get?_upsert] at hrow
      split at hrow
      · refine ⟨issuedRole role admin, ?_⟩
        obtain rfl := Option.some.inj hrow
        cases apiTokens.get? (hashToken codec token) <;> rfl
      · exact h hash row hrow
  | revoke token now =>
      rw [TokenCommand.apply, revokeToken, Table.get?_modify] at hrow
      split at hrow
      · obtain ⟨old, hold, rfl⟩ := Option.map_eq_some_iff.mp hrow
        exact h _ old hold
      · exact h hash row hrow

/-- A request is authorised as what its token is good for, and refused as unknown otherwise. -/
theorem authorize_eq (h : Represents codec history apiTokens) (hroles : RolesKnown apiTokens)
    (headers : HeaderMap) :
    authorize codec apiTokens headers =
      (grantedTo codec history headers).elim (.error .unauthorized) .ok := by
  rw [authorize, grantedTo]
  cases bearerToken headers with
  | none => rfl
  | some token =>
      change _ = (granted codec history (hashToken codec token)).elim _ _
      rw [h (hashToken codec token)]
      cases hrow : apiTokens.get? (hashToken codec token) with
      | none => simp [required, hrow, bind, Except.bind]
      | some row =>
          obtain ⟨role, hrole⟩ := hroles _ row hrow
          by_cases hrevoked : row.revokedAtMs = none
          · simp [required, hrow, hrevoked, hrole, Option.filter, bind, Except.bind, pure,
              Except.pure]
          · simp [required, hrow, hrevoked, Option.filter, bind, Except.bind]

end Grants

end Codexwatch.Server
