import MarTech.Database.Models

namespace MarTech

-- An exception for the client, with the status of the answer that it becomes.
structure AppError extends Error where
  statusCode : Nat
deriving DecidableEq, Repr

def notFoundError (message code : String) : AppError where
  text       := message
  code       := code
  statusCode := 404

def serviceUnavailableError (message code : String) : AppError where
  text       := message
  code       := code
  statusCode := 503

end MarTech
