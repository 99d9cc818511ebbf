import TxReceipt.Text.Blank

/-!
# Permissions

Service tokens and item collections know different permissions. In logs their names stand in either
case and with blanks around them; on the wire they are in upper case.
-/

namespace TxReceipt

inductive TokenPermission where
  | modify
  | mint
  | burn
  deriving DecidableEq

inductive ItemPermission where
  | issue
  | modify
  | mint
  | burn
  deriving DecidableEq

/-- A permission's name as logs spell it, without blanks at its ends and in lower case. Letters
outside ASCII stay as they are. -/
def permissionName (raw : String) : String :=
  String.ofList ((Text.trimChars raw.toList).map Char.toLower)

namespace TokenPermission

def ofRaw? (raw : String) : Option TokenPermission :=
  match permissionName raw with
  | "modify" => some .modify
  | "mint" => some .mint
  | "burn" => some .burn
  | _ => none

def wireName : TokenPermission → String
  | .modify => "MODIFY"
  | .mint => "MINT"
  | .burn => "BURN"

def ofWireName? : String → Option TokenPermission
  | "MODIFY" => some .modify
  | "MINT" => some .mint
  | "BURN" => some .burn
  | _ => none

end TokenPermission

namespace ItemPermission

def ofRaw? (raw : String) : Option ItemPermission :=
  match permissionName raw with
  | "issue" => some .issue
  | "modify" => some .modify
  | "mint" => some .mint
  | "burn" => some .burn
  | _ => none

def wireName : ItemPermission → String
  | .issue => "ISSUE"
  | .modify => "MODIFY"
  | .mint => "MINT"
  | .burn => "BURN"

def ofWireName? : String → Option ItemPermission
  | "ISSUE" => some .issue
  | "MODIFY" => some .modify
  | "MINT" => some .mint
  | "BURN" => some .burn
  | _ => none

end ItemPermission

end TxReceipt
