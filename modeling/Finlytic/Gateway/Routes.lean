import Finlytic.Lib.Text

/-! The gateway's configuration and its route table. -/

namespace Finlytic.Gateway

/-- The configuration that `loadConfig` accepts: no required value is empty. -/
structure GatewayConfig where
  issuer : String
  audience : String
  userManagementUrl : List Char
  emailIngestionUrl : List Char
  webRoot : Option (List Char)
  issuer_ne : issuer ≠ ""
  audience_ne : audience ≠ ""
  userManagementUrl_ne : userManagementUrl ≠ []
  emailIngestionUrl_ne : emailIngestionUrl ≠ []

/-- The values of `docker-compose.yml`. -/
def composeConfig : GatewayConfig where
  issuer := "finlytic-user-management"
  audience := "finlytic"
  userManagementUrl := "http://user-management-api:3001".toList
  emailIngestionUrl := "http://email-ingestion-api:3002".toList
  webRoot := some "/app/apps/web/dist".toList
  issuer_ne := by decide
  audience_ne := by decide
  userManagementUrl_ne := by decide
  emailIngestionUrl_ne := by decide

structure Route where
  routePrefix : List Char
  target : List Char
  requiresAuth : Bool
  stripPrefix : Option (List Char)
  deriving DecidableEq

def buildRoutes (config : GatewayConfig) : List Route :=
  [⟨"/api/auth".toList, config.userManagementUrl, false, some "/api".toList⟩,
    ⟨"/api/users".toList, config.userManagementUrl, true, some "/api".toList⟩,
    ⟨"/api/accounts".toList, config.emailIngestionUrl, true, some "/api".toList⟩,
    ⟨"/oauth".toList, config.emailIngestionUrl, false, none⟩]

/-- Exact segment boundary, so `/authorization` does not match the `/auth` route. -/
def matchRoute (routes : List Route) (pathname : List Char) : Option Route :=
  routes.find? fun route =>
    pathname = route.routePrefix || (route.routePrefix ++ ['/']).isPrefixOf pathname

end Finlytic.Gateway
