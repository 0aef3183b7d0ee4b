import AttestedVault.Key.Id

/-!
# Cryptographic errors

What can go wrong when keys are built, texts are sealed or opened, and random
bytes are drawn.
-/

namespace AttestedVault

inductive CryptoError
  | keyLength (got : Nat)
  | ivLength (expected got : Nat)
  | tagLength (got : Nat)
  | dekLength (got : Nat)
  | badMasterKeyId (cause : MasterKeyId.ParseError)
  | tooShort
  | emptyMeasurement
  | decryption
  | unwrapAuthentication
  | random (reason : String)
  deriving DecidableEq, Repr

def CryptoError.message : CryptoError → String
  | .keyLength got => "Invalid key length: expected 32 bytes, got " ++ toString got
  | .ivLength expected got =>
    "Invalid IV length: expected " ++ toString expected ++ " bytes, got " ++ toString got
  | .tagLength got => "Invalid auth tag length: expected 16 bytes, got " ++ toString got
  | .dekLength got => "Invalid DEK length: expected 32 bytes, got " ++ toString got
  | .badMasterKeyId cause => "Invalid master key id: " ++ cause.message
  | .tooShort => "Encrypted data too short"
  | .emptyMeasurement => "Measurement must not be empty"
  | .decryption => "Decryption failed: authentication tag mismatch"
  | .unwrapAuthentication => "DEK unwrap failed: authentication tag mismatch"
  | .random reason => "Random number generation failed: " ++ reason

end AttestedVault
