namespace HologramLive

/-- The typed error vocabulary shared by every subsystem. -/
inductive LiveError where
  | io (message : String)
  | config (message : String)
  | protocol (message : String)
  | transport (message : String)
  | authentication (message : String)
  | authorization (message : String)
  | capability (message : String)
  | notFound (message : String)
  | conflict (message : String)
  | invalidHolo (message : String)
  | unknownCommitState (message : String)
  deriving DecidableEq

namespace LiveError

def code : LiveError → String
  | .io _ => "LIVE_IO"
  | .config _ => "LIVE_CONFIG_INVALID"
  | .protocol _ => "LIVE_PROTOCOL_ERROR"
  | .transport _ => "LIVE_TRANSPORT_UNAVAILABLE"
  | .authentication _ => "LIVE_AUTHENTICATION_FAILED"
  | .authorization _ => "LIVE_AUTHORIZATION_DENIED"
  | .capability _ => "LIVE_CAPABILITY_MISSING"
  | .notFound _ => "LIVE_NOT_FOUND"
  | .conflict _ => "LIVE_CONFLICT"
  | .invalidHolo _ => "LIVE_HOLO_INVALID"
  | .unknownCommitState _ => "LIVE_UNKNOWN_COMMIT_STATE"

/-- The `Display` text is the carried message. -/
def message : LiveError → String
  | .io m | .config m | .protocol m | .transport m | .authentication m | .authorization m
  | .capability m | .notFound m | .conflict m | .invalidHolo m | .unknownCommitState m => m

end LiveError
end HologramLive
